import GroundLink.Proofs.Desk

/-! What a job takes in. A queue that works hands its job one event after the other, and those that
concern it are what the job acts on; `Desk.keeps_takeAll` follows a desk and this record together. -/

namespace GroundLink

open Function

instance (r : Running) : DecidablePred (Event.Concerns r)
  | .message job _ _ => inferInstanceAs (Decidable (job = none ∨ job = some r.number))
  | .expiry job cookie => inferInstanceAs (Decidable (job = r.number ∧ r.cookie = some cookie))

namespace Running

/-- The ways an event can be taken in: it is stray, or the job makes a step, its timer gone if it was that. -/
inductive Takes (r : Running) (s : Service) (h : Hub) : Event → Progress → Prop
  | stray {e : Event} (stray : ¬e.Concerns r) : Takes r s h e ⟨.running r, h, []⟩
  | heard {job : Option Nat} {header : Header} {m : Message} (concerns : job = none ∨ job = some r.number) :
      Takes r s h (.message job header m) (r.follow s h (r.activity.onMessage (h.setting s) header.sender m))
  | expired {cookie : Cookie} (own : r.cookie = some cookie) :
      Takes r s h (.expiry r.number cookie)
        ({ r with cookie := none }.follow s h (r.activity.onTimeout (h.setting s)))

section Take

variable {r : Running}

theorem take_heard {job : Option Nat} (hc : job = none ∨ job = some r.number) (s : Service) (h : Hub)
    (header : Header) (m : Message) :
    r.take s h (.message job header m) = r.follow s h (r.activity.onMessage (h.setting s) header.sender m) :=
  if_pos hc

theorem take_expired {cookie : Cookie} (hown : r.cookie = some cookie) (s : Service) (h : Hub) :
    r.take s h (.expiry r.number cookie) =
      { r with cookie := none }.follow s h (r.activity.onTimeout (h.setting s)) :=
  if_pos ⟨rfl, hown⟩

theorem take_stray {e : Event} (hc : ¬e.Concerns r) (s : Service) (h : Hub) :
    r.take s h e = ⟨.running r, h, []⟩ := by
  cases e <;> exact if_neg hc

end Take

theorem take_takes (r : Running) (s : Service) (h : Hub) (e : Event) : r.Takes s h e (r.take s h e) := by
  by_cases hc : e.Concerns r
  · cases e with
    | message job header m =>
        rw [take_heard hc]
        exact .heard hc
    | expiry job cookie =>
        obtain ⟨rfl, hown⟩ := hc
        rw [take_expired hown]
        exact .expired hown
  · rw [take_stray hc]
    exact .stray hc

end Running

/-- An event that a job acts on, with the hub it finds. -/
structure Taking where
  job : Running
  hub : Hub
  event : Event

namespace Running

def heeds (r : Running) (h : Hub) (e : Event) : List Taking := if e.Concerns r then [⟨r, h, e⟩] else []

/-- What of a list of events a job acts on, until it ends. -/
def takings (s : Service) : List Event → Running → Hub → List Taking
  | [], _, _ => []
  | e :: rest, r, h =>
    let p := r.take s h e
    match p.standing with
    | .ended _ => r.heeds h e
    | .running r' => r.heeds h e ++ takings s rest r' p.hub

end Running

/-- What the job under way of a queue acts on when the queue works. -/
def JobQueue.takings (q : JobQueue) (s : Service) (h : Hub) : List Taking :=
  q.running.elim [] fun r => r.takings s q.events h

namespace Desk

variable {i : Input} {s : Service}

theorem step_take {d : Desk} {r : Running} {e : Event} {rest : List Event}
    (hr : (d.queue s).running = some r) (he : (d.queue s).events = e :: rest) :
    Step i d (d.after s ((d.queue s).withEvents rest) (r.take s d.hub e)) := by
  have ht := r.take_takes s d.hub e
  generalize r.take s d.hub e = p at ht
  cases ht with
  | stray hc =>
      rw [after_running d s ((d.queue s).withEvents rest) hr]
      exact .skip hr he hc
  | heard hc => exact .follow (.hear hr he hc)
  | expired hown => exact .follow (.expire hr he hown)

/-- Taking events in until the job ends; those behind its end are left. -/
theorem keeps_takeAll {P : Desk → List Taking → Prop}
    (htake : ∀ d r e rest past, (d.queue s).running = some r → (d.queue s).events = e :: rest → P d past →
      P (d.after s ((d.queue s).withEvents rest) (r.take s d.hub e)) (past ++ r.heeds d.hub e))
    (events : List Event) :
    ∀ (d : Desk) (r : Running) (past : List Taking), (d.queue s).running = some r →
      (d.queue s).events = events →
      P d past →
        ∃ left, P (d.after s ((d.queue s).withEvents left) (Running.takeAll s events r d.hub))
            (past ++ r.takings s events d.hub) ∧
          ∀ r', (Running.takeAll s events r d.hub).standing = .running r' → left = [] := by
  induction events with
  | nil =>
      intro d r past hr he hP
      refine ⟨[], ?_, fun _ _ => rfl⟩
      rw [Running.takeAll, after_running d s ((d.queue s).withEvents []) hr, ← he,
        JobQueue.withEvents_self, put_self]
      simpa [Running.takings, he] using hP
  | cons e rest ih =>
      intro d r past hr he hP
      have hone := htake d r e rest past hr he hP
      cases hp : (r.take s d.hub e).standing with
      | ended x =>
          have hall : Running.takeAll s (e :: rest) r d.hub = r.take s d.hub e := by
            simp only [Running.takeAll, hp]
          have hheeds : r.takings s (e :: rest) d.hub = r.heeds d.hub e := by
            simp only [Running.takings, hp]
          rw [hall, hheeds]
          exact ⟨rest, hone, fun r' hr' => by rw [hp] at hr'; cases hr'⟩
      | running r₁ =>
          have hall : Running.takeAll s (e :: rest) r d.hub =
              (Running.takeAll s rest r₁ (r.take s d.hub e).hub).preceded (r.take s d.hub e).effects := by
            simp only [Running.takeAll, hp]
          have hheeds : r.takings s (e :: rest) d.hub =
              r.heeds d.hub e ++ r₁.takings s rest (r.take s d.hub e).hub := by
            simp only [Running.takings, hp]
          obtain ⟨left, hrest, hleft⟩ :=
            ih (d.after s ((d.queue s).withEvents rest) (r.take s d.hub e)) r₁ _
              (by simp [after, hp, Standing.running?]) (by simp [after]) hone
          refine ⟨left, ?_, fun r' hr' => hleft r' (by rw [hall] at hr'; exact hr')⟩
          -- what the first event leaves is the desk from which the others are taken in
          have htwo := after_after d s ((d.queue s).withEvents rest) ((d.queue s).withEvents left)
            (r.take s d.hub e) (Running.takeAll s rest r₁ (r.take s d.hub e).hub) hp
          have hqueue : d.after s ((d.queue s).withEvents left) (Running.takeAll s (e :: rest) r d.hub) =
              (d.after s ((d.queue s).withEvents rest) (r.take s d.hub e)).after s
                (((d.after s ((d.queue s).withEvents rest) (r.take s d.hub e)).queue s).withEvents left)
                (Running.takeAll s rest r₁ (r.take s d.hub e).hub) := by
            rw [hall, ← htwo]
            simp [after]
          rw [hqueue, hheeds, ← List.append_assoc]
          exact hrest

end Desk

end GroundLink
