import Mathlib.Logic.Relation
import GroundLink.Proofs.Timers

/-! Timers among those who use them. A scene is a table of timers with a clock and with all that has happened
so far. The owners of the timers may arm, refresh and remove some and set the clock, between the passes and,
in answer to a timer that fires, during one. -/

namespace GroundLink.Timers

/-- What an owner may do. -/
inductive Act (τ : Type)
  | add (span : Span) (tag : τ)
  | refresh (cookie : Cookie)
  | remove (cookie : Cookie)
  | set (now : Instant)

inductive Incident (τ : Type)
  | added (cookie : Cookie) (span : Span) (tag : τ)
  | refreshed (cookie : Cookie)
  | removed (cookie : Cookie)
  | clockSet
  | began
  | fired (x : Timer τ)
  | ended

/-- Something that happened, with the clock and the table it left. -/
structure Moment (τ : Type) where
  incident : Incident τ
  clock : Instant
  table : Timers τ

structure World (τ : Type) where
  clock : Instant
  past : List (Moment τ)

abbrev Scene (τ : Type) := Timers τ × World τ

/-- What the owner of each timer does when it fires. It may depend on all that has happened. -/
abbrev Owners (τ : Type) := Timer τ → Scene τ → List (Act τ)

/-- What a caller does next. -/
inductive Turn (τ : Type)
  | act (a : Act τ)
  | pass

variable {τ : Type}

namespace Scene

def note (s : Scene τ) (i : Incident τ) : Scene τ :=
  (s.1, { s.2 with past := s.2.past ++ [⟨i, s.2.clock, s.1⟩] })

def perform (s : Scene τ) : Act τ → Scene τ
  | .add span tag => note (s.1.add s.2.clock span tag, s.2) (.added s.1.fresh span tag)
  | .refresh c => note (s.1.refresh s.2.clock c, s.2) (.refreshed c)
  | .remove c => note (s.1.remove c, s.2) (.removed c)
  | .set now => note (s.1, { s.2 with clock := now }) .clockSet

/-- A timer fires, and its owner acts. -/
def fire (owners : Owners τ) (x : Timer τ) (s : Scene τ) : Scene τ :=
  (owners x (s.note (.fired x))).foldl perform (s.note (.fired x))

def turn (owners : Owners τ) (s : Scene τ) : Turn τ → Scene τ
  | .act a => s.perform a
  | .pass => note (Timers.pass s.2.clock (fire owners) (s.note .began)) .ended

/-- All that comes of a list of turns, from no timers on. -/
def run (owners : Owners τ) (clock : Instant) (turns : List (Turn τ)) : Scene τ :=
  turns.foldl (turn owners) (.empty, ⟨clock, []⟩)

end Scene

namespace Incident

def fired? : Incident τ → Option (Timer τ)
  | .fired x => some x
  | _ => none

def handedOut? : Incident τ → Option Cookie
  | .added c _ _ => some c
  | _ => none

end Incident

/-- The timers that fired, in order. -/
def fired (past : List (Moment τ)) : List (Timer τ) := past.filterMap (·.incident.fired?)

/-- The cookies that were handed out, in order. -/
def handedOut (past : List (Moment τ)) : List Cookie := past.filterMap (·.incident.handedOut?)

/-- The table that a past has left. -/
def left (past : List (Moment τ)) : Timers τ :=
  match past.getLast? with
  | none => .empty
  | some m => m.table

namespace Moment

def Adds (c : Cookie) (m : Moment τ) : Prop := ∃ span tag, m.incident = .added c span tag

/-- Whether a timer is gone from here on. -/
def Ends (c : Cookie) (m : Moment τ) : Prop :=
  m.incident = .removed c ∨ ∃ x, m.incident = .fired x ∧ x.cookie = c

/-- Whether a timer is given its whole span. -/
def Sets (c : Cookie) (m : Moment τ) : Prop := m.Adds c ∨ m.incident = .refreshed c

/-- Whether no pass begins or ends. -/
def Within (m : Moment τ) : Prop := m.incident ≠ .began ∧ m.incident ≠ .ended

end Moment

/-- Whether `P` held at some moment and `Q` at none after it. -/
def Since (P Q : Moment τ → Prop) (past : List (Moment τ)) : Prop :=
  ∃ u m v, past = u ++ m :: v ∧ P m ∧ ∀ n ∈ v, ¬Q n

section
variable {past : List (Moment τ)} {m : Moment τ} {P Q : Moment τ → Prop}

theorem fired_concat : fired (past ++ [m]) = fired past ++ m.incident.fired?.toList := by
  rw [fired, List.filterMap_append]
  cases h : m.incident.fired? <;> simp [h, fired]

theorem handedOut_concat : handedOut (past ++ [m]) = handedOut past ++ m.incident.handedOut?.toList := by
  rw [handedOut, List.filterMap_append]
  cases h : m.incident.handedOut? <;> simp [h, handedOut]

@[simp] theorem left_concat : left (past ++ [m]) = m.table := by simp [left]

/-- What lies before a moment of a past that has grown by one. -/
theorem split_concat {u v : List (Moment τ)} {m n : Moment τ} (h : past ++ [n] = u ++ m :: v) :
    (v = [] ∧ u = past ∧ m = n) ∨ ∃ v', v = v' ++ [n] ∧ past = u ++ m :: v' := by
  rcases List.eq_nil_or_concat v with rfl | ⟨v', n', rfl⟩
  · obtain ⟨h, hm⟩ := List.append_inj' h rfl
    exact .inl ⟨rfl, h.symm, (List.cons.inj hm).1.symm⟩
  · have h' : past ++ [n] = (u ++ m :: v') ++ [n'] := by rw [h, List.concat_eq_append]; simp
    obtain ⟨h, hn⟩ := List.append_inj' h' rfl
    exact .inr ⟨v', by rw [List.concat_eq_append, (List.cons.inj hn).1], h⟩

theorem since_concat : Since P Q (past ++ [m]) ↔ P m ∨ (Since P Q past ∧ ¬Q m) := by
  constructor
  · rintro ⟨u, n, v, h, hn, hv⟩
    rcases split_concat h with ⟨rfl, rfl, rfl⟩ | ⟨v', rfl, rfl⟩
    · exact .inl hn
    · refine .inr ⟨⟨u, n, v', rfl, hn, fun k hk => hv k (List.mem_append_left _ hk)⟩, hv m ?_⟩
      exact List.mem_append_right _ List.mem_cons_self
  · rintro (hm | ⟨⟨u, n, v, rfl, hn, hv⟩, hm⟩)
    · exact ⟨past, m, [], rfl, hm, by simp⟩
    · refine ⟨u, n, v ++ [m], by simp, hn, fun k hk => ?_⟩
      rcases List.mem_append.mp hk with hk | hk
      · exact hv k hk
      · rw [List.mem_singleton.mp hk]
        exact hm

theorem Since.mono {P' : Moment τ → Prop} (h : Since P Q past) (hP : ∀ m ∈ past, P m → P' m) :
    Since P' Q past := by
  obtain ⟨u, m, v, rfl, hm, hv⟩ := h
  exact ⟨u, m, v, rfl, hP m (by simp) hm, hv⟩

end

/-- A pass under way: the reading it began at, and how many cookies were out then. -/
structure Sweep where
  now : Instant
  horizon : Nat

/-- The pass under way after a moment. -/
def Moment.sweep (m : Moment τ) (p : Option Sweep) : Option Sweep :=
  match m.incident with
  | .began => some ⟨m.clock, m.table.issued⟩
  | .ended => none
  | _ => p

/-- What an incident makes of a table. -/
def change (t : Timers τ) (clock : Instant) : Incident τ → Timers τ
  | .added _ span tag => t.add clock span tag
  | .refreshed c => t.refresh clock c
  | .removed c => t.remove c
  | .fired x => t.remove x.cookie
  | .clockSet | .began | .ended => t

namespace Scene

open Relation

def after (s : Scene τ) (m : Moment τ) : Scene τ := (m.table, ⟨m.clock, s.2.past ++ [m]⟩)

/-- Whether a moment can come next, given the pass under way. -/
structure Next (p : Option Sweep) (s : Scene τ) (m : Moment τ) : Prop where
  table : m.table = s.1.change m.clock m.incident
  fresh : ∀ c, m.Adds c → c = s.1.issued
  due : ∀ x, m.incident = .fired x → ∃ q, p = some q ∧ s.1.due? q.now q.horizon = some x

/-- One thing that happens in a pass. -/
def Moves (q : Sweep) (s s' : Scene τ) : Prop := ∃ m, s.Next (some q) m ∧ m.Within ∧ s' = s.after m

theorem next_perform (p : Option Sweep) (s : Scene τ) (a : Act τ) :
    ∃ m, s.Next p m ∧ m.Within ∧ s.perform a = s.after m := by
  cases a with
  | add span tag =>
      refine ⟨⟨.added s.1.issued span tag, s.2.clock, s.1.add s.2.clock span tag⟩, ⟨rfl, ?_, nofun⟩,
        ⟨nofun, nofun⟩, rfl⟩
      rintro c ⟨span', tag', h⟩
      exact (Incident.added.inj h).1.symm
  | refresh c =>
      exact ⟨⟨.refreshed c, s.2.clock, s.1.refresh s.2.clock c⟩, ⟨rfl, nofun, nofun⟩, ⟨nofun, nofun⟩, rfl⟩
  | remove c => exact ⟨⟨.removed c, s.2.clock, s.1.remove c⟩, ⟨rfl, nofun, nofun⟩, ⟨nofun, nofun⟩, rfl⟩
  | set now => exact ⟨⟨.clockSet, now, s.1⟩, ⟨rfl, nofun, nofun⟩, ⟨nofun, nofun⟩, rfl⟩

theorem next_fired {q : Sweep} {t : Timers τ} {w : World τ} {x : Timer τ}
    (h : t.due? q.now q.horizon = some x) :
    Moves q (t, w) (note (t.remove x.cookie, w) (.fired x)) := by
  refine ⟨⟨.fired x, w.clock, t.remove x.cookie⟩, ⟨rfl, nofun, fun y hy => ⟨q, rfl, ?_⟩⟩, ⟨nofun, nofun⟩, rfl⟩
  rw [← Incident.fired.inj hy]
  exact h

theorem moves_performAll (q : Sweep) (acts : List (Act τ)) (s : Scene τ) :
    ReflTransGen (Moves q) s (acts.foldl perform s) := by
  induction acts generalizing s with
  | nil => exact .refl
  | cons a rest ih => exact .head (next_perform (some q) s a) (ih (s.perform a))

theorem moves_passFrom (q : Sweep) (owners : Owners τ) (fuel : Nat) (s : Scene τ) :
    ReflTransGen (Moves q) s (passFrom q.now q.horizon (fire owners) fuel s) := by
  induction fuel generalizing s with
  | zero => exact .refl
  | succ fuel ih =>
      obtain ⟨t, w⟩ := s
      rw [passFrom]
      cases hd : t.due? q.now q.horizon with
      | none => exact .refl
      | some x => exact .head (next_fired hd) ((moves_performAll q _ _).trans (ih _))

end Scene

/-- Where an armed timer comes from: it was armed and is left alone, it is new, or it
was given its span again. -/
theorem armed_of_change {t : Timers τ} {clock : Instant} {i : Incident τ} {y : Timer τ}
    (h : y ∈ (t.change clock i).armed) :
    (y ∈ t.armed ∧ i ≠ .refreshed y.cookie ∧ ∀ x, i = .fired x → y.cookie ≠ x.cookie) ∨
      (∃ c span tag, i = .added c span tag ∧ y = ⟨t.issued, clock.after span, span, tag⟩) ∨
      ∃ z ∈ t.armed, i = .refreshed z.cookie ∧ y = { z with deadline := clock.after z.span } := by
  cases i with
  | added c span tag =>
      rcases List.mem_append.mp h with h | h
      · exact .inl ⟨h, nofun, nofun⟩
      · exact .inr (.inl ⟨c, span, tag, rfl, List.mem_singleton.mp h⟩)
  | refreshed c =>
      obtain ⟨z, hz, rfl⟩ := List.mem_map.mp h
      by_cases hc : z.cookie = c
      · exact .inr (.inr ⟨z, hz, by rw [hc], if_pos hc⟩)
      · rw [if_neg hc]
        exact .inl ⟨hz, fun h => hc (Incident.refreshed.inj h).symm, nofun⟩
  | removed c => exact .inl ⟨(mem_remove.mp h).1, nofun, nofun⟩
  | fired x =>
      exact .inl ⟨(mem_remove.mp h).1, nofun, fun x' hx' => Incident.fired.inj hx' ▸ (mem_remove.mp h).2⟩
  | clockSet => exact .inl ⟨h, nofun, nofun⟩
  | began => exact .inl ⟨h, nofun, nofun⟩
  | ended => exact .inl ⟨h, nofun, nofun⟩

end GroundLink.Timers
