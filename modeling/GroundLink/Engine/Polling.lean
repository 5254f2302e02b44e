import GroundLink.Engine.Basic

/-! The task that looks after an engine by itself: it ticks the engine, sleeps for as long as the
engine says, and starts over, until it is told to stop or nobody is left to tell it. Time is counted
in milliseconds. -/

namespace GroundLink

/-- What a task is told from outside. Of several values the last one counts. -/
structure Shutdown where
  /-- A value that the task did not look at yet. -/
  value : Option Bool
  /-- Whether there is nobody left to send one. -/
  closed : Bool
  deriving DecidableEq, Inhabited

inductive PollPhase
  | fresh
  /-- It sleeps until the given time. -/
  | asleep (wake : Nat)
  | finished
  deriving DecidableEq, Inhabited

/-- An engine and the task that looks after it. -/
structure Polling where
  engine : Engine
  now : Nat
  phase : PollPhase
  shutdown : Shutdown
  polls : Nat
  effects : List Effect

namespace Polling

def start (e : Engine) : Polling := ⟨e, 0, .fresh, ⟨none, false⟩, 0, []⟩

def follow (p : Polling) (r : Reaction) : Polling :=
  { p with engine := r.engine, effects := p.effects ++ r.effects }

def turn (p : Polling) (time : Nat) : Polling :=
  let p := p.follow p.engine.tick
  { p with phase := .asleep (time + p.engine.pollInterval.toNat), polls := p.polls + 1 }

/-- Lets a sleeping task hear what it was told: it stops if the value says so or if nobody is left,
and else takes another turn at once. -/
def hear (p : Polling) : Polling :=
  match p.phase with
  | .asleep _ =>
    match p.shutdown.value with
    | some true => { p with phase := .finished }
    | some false =>
      let p := { p with shutdown := { p.shutdown with value := none } }.turn p.now
      if p.shutdown.closed then { p with phase := .finished } else p
    | none => if p.shutdown.closed then { p with phase := .finished } else p
  | _ => p

/-- Takes the turns that come up before the given time. Every turn sleeps for a while, so that the
time left bounds their number. -/
def turnsBefore (time : Nat) : Nat → Polling → Polling
  | 0, p => p
  | fuel + 1, p =>
    match p.phase with
    | .asleep wake => if wake < time then turnsBefore time fuel (p.turn wake) else p
    | _ => p

def sleep (p : Polling) (ms : Nat) : Polling :=
  if ms = 0 then p
  else
    let p := if p.phase = .fresh then p.turn p.now else p
    let time := p.now + ms
    { p.hear.turnsBefore time ms with now := time }

def tell (p : Polling) (stop : Bool) : Polling :=
  if p.shutdown.closed then p else { p with shutdown := { p.shutdown with value := some stop } }

def abandon (p : Polling) : Polling := { p with shutdown := { p.shutdown with closed := true } }

def isFinished (p : Polling) : Bool := p.phase = .finished

end Polling

end GroundLink
