import GroundLink.Time.Clock

/-! A table of one-shot timers. Every timer has a cookie, a number handed out in growing order and
never again. A pass fires the timers that are due at the reading it began with, the earliest first
and of equal ones the older; timers added while it runs are left for a later pass. -/

namespace GroundLink

/-- The name of a timer. -/
abbrev Cookie := Nat

structure Timer (τ : Type) where
  cookie : Cookie
  deadline : Instant
  span : Span
  tag : τ

/-- Whether `x` fires before `y`. -/
def Timer.before {τ : Type} (x y : Timer τ) : Bool :=
  x.deadline < y.deadline || (x.deadline = y.deadline && x.cookie < y.cookie)

structure Timers (τ : Type) where
  armed : List (Timer τ)
  issued : Nat

namespace Timers

variable {τ ω : Type}

def empty : Timers τ := ⟨[], 0⟩

def size (t : Timers τ) : Nat := t.armed.length

def fresh (t : Timers τ) : Cookie := t.issued

def add (t : Timers τ) (now : Instant) (span : Span) (tag : τ) : Timers τ :=
  ⟨t.armed ++ [⟨t.issued, now.after span, span, tag⟩], t.issued + 1⟩

/-- Gives an armed timer its whole span again. -/
def refresh (t : Timers τ) (now : Instant) (cookie : Cookie) : Timers τ :=
  { t with armed := t.armed.map fun x =>
      if x.cookie = cookie then { x with deadline := now.after x.span } else x }

def remove (t : Timers τ) (cookie : Cookie) : Timers τ :=
  { t with armed := t.armed.filter (·.cookie ≠ cookie) }

def contains (t : Timers τ) (cookie : Cookie) : Bool := t.armed.any (·.cookie = cookie)

/-- The first to fire of a list of timers. -/
def first? : List (Timer τ) → Option (Timer τ)
  | [] => none
  | x :: rest =>
    match first? rest with
    | none => some x
    | some y => if y.before x then some y else some x

/-- The next timer of a pass that began at `now` when `horizon` cookies were out. -/
def due? (t : Timers τ) (now : Instant) (horizon : Nat) : Option (Timer τ) :=
  first? (t.armed.filter fun x => x.cookie < horizon && x.deadline ≤ now)

/-- Fires due timers one at a time. Each is disarmed and then handed to `fire` together with the
table and the rest of the world, both of which it may change. -/
def passFrom (now : Instant) (horizon : Nat) (fire : Timer τ → Timers τ × ω → Timers τ × ω) :
    Nat → Timers τ × ω → Timers τ × ω
  | 0, world => world
  | fuel + 1, (t, w) =>
    match t.due? now horizon with
    | none => (t, w)
    | some x => passFrom now horizon fire fuel (fire x (t.remove x.cookie, w))

/-- One pass at the reading `now`. No timer of before the pass can be armed again during it, so
that their number bounds the pass. -/
def pass (now : Instant) (fire : Timer τ → Timers τ × ω → Timers τ × ω) (world : Timers τ × ω) :
    Timers τ × ω :=
  passFrom now world.1.issued fire world.1.size world

end Timers

end GroundLink
