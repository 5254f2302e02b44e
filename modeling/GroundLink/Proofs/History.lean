import GroundLink.Proofs.Attendance

/-! The history of a queue: all that its jobs act on in a run, in order, with the hub each finds. What
small steps keep of a desk together with its history holds at the end of a run (`Engine.keeps_history`). -/

namespace GroundLink

open Function

namespace Engine

/-- An engine that looks after everything, when it has come to a queue. -/
def atTurn (e : Engine) : Service → Engine
  | .commands => e.fireTimers
  | .mission .client => (e.fireTimers.work .commands).engine
  | .mission .server => ((e.fireTimers.work .commands).engine.work (.mission .client)).engine

theorem queue_atTurn (e : Engine) (s : Service) : (e.atTurn s).queue s = e.fireTimers.queue s := by
  obtain _ | ⟨_ | _⟩ := s
  · rfl
  · rw [atTurn, queue_work, update_of_ne (by decide)]
  · rw [atTurn, queue_work, update_of_ne (by decide), queue_work, update_of_ne (by decide)]

/-- What the jobs of a queue act on when the engine takes an input in. -/
def takings (e : Engine) (s : Service) : Input → List Taking
  | .work t => if t = s then (e.queue s).takings s e.hub else []
  | .tick => ((e.atTurn s).queue s).takings s (e.atTurn s).hub
  | _ => []

/-- What the jobs of a queue act on in a run. -/
def history (e : Engine) (s : Service) : List Input → List Taking
  | [] => []
  | i :: rest => e.takings s i ++ (e.step i).engine.history s rest

section Keeps

variable {s : Service} {P : Desk → List Taking → Prop}
  (hstep : ∀ (i : Input) d d' past, P d past → Desk.Step i d d' → P d' past)
  (htake : ∀ d r e rest past, (d.queue s).running = some r → (d.queue s).events = e :: rest → P d past →
    P (d.after s ((d.queue s).withEvents rest) (r.take s d.hub e)) (past ++ r.heeds d.hub e))

include hstep

theorem keeps_reaches {i : Input} {d d' : Desk} {past : List Taking} (h : P d past)
    (hreach : Desk.Reaches i d d') : P d' past :=
  Desk.keeps_of_reaches (P := fun d => P d past) (fun _ _ => hstep i _ _ past) h hreach

include htake

theorem keeps_work (e : Engine) (effects : List Effect) (asked : Service → List Task) {past : List Taking}
    (h : P (e.desk effects asked) past) :
    P ((e.work s).engine.desk (effects ++ (e.work s).effects) asked)
      (past ++ (e.queue s).takings s e.hub) := by
  have hwork := Desk.keeps_work (fun _ _ past h hs => hstep .tick _ _ past h hs.step) htake
    (d := e.desk effects asked) past rfl h
  have hturn := fun acksSeen =>
    desk_afterTurn { e with acksSeen } s ((e.queue s).work s e.hub) effects asked
  exact (hturn _).symm ▸ hwork

theorem keeps_tick (e : Engine) (effects : List Effect) (asked : Service → List Task) {past : List Taking}
    (h : P (e.desk effects asked) past) :
    P (e.tick.engine.desk (effects ++ e.tick.effects) asked) (past ++ e.takings s .tick) := by
  have hfire : P (e.fireTimers.desk effects asked) past :=
    keeps_reaches hstep (i := .tick) h (e.reaches_fireTimers effects asked)
  have hother := fun {e : Engine} (t : Service) (effects : List Effect) {past : List Taking}
    (h : P (e.desk effects asked) past) => keeps_reaches hstep (i := .tick) h (e.reaches_work t effects asked)
  have hown := fun {e : Engine} (effects : List Effect) {past : List Taking}
    (h : P (e.desk effects asked) past) => keeps_work hstep htake e effects asked h
  have htick : e.tick.effects = (e.fireTimers.work .commands).effects ++
      ((e.fireTimers.work .commands).engine.work (.mission .client)).effects ++
        (((e.fireTimers.work .commands).engine.work (.mission .client)).engine.work
          (.mission .server)).effects := rfl
  rw [htick, ← List.append_assoc, ← List.append_assoc]
  obtain _ | ⟨_ | _⟩ := s
  · exact hother _ _ (hother _ _ (hown _ hfire))
  · exact hother _ _ (hown _ (hother _ _ hfire))
  · exact hown _ (hother _ _ (hother _ _ hfire))

/-- While the clock does not go back, what small steps and changes of the time and the link keep of a desk
and of what was acted on so far holds after a run. -/
theorem keeps_history
    (hunder : ∀ (i : Input) d past, d.hub.clock ≤ i.clock d.hub.clock → P d past → P (d.under i) past)
    (inputs : List Input) :
    ∀ (e : Engine) (effects : List Effect) (asked : Service → List Task) (past : List Taking),
      ClockSteady e.hub.clock inputs → P (e.desk effects asked) past →
        ∃ d, P d (past ++ e.history s inputs) := by
  induction inputs with
  | nil =>
      intro e effects asked past _ h
      exact ⟨_, by rwa [history, List.append_nil]⟩
  | cons i rest ih =>
      intro e effects asked past hsteady h
      obtain ⟨hle, hrest⟩ := hsteady
      have hmoved := hunder i _ _ hle h
      have hone : ∃ asked', P ((e.step i).engine.desk (effects ++ (e.step i).effects) asked')
          (past ++ e.takings s i) := by
        have hquiet : P ((e.step i).engine.desk (effects ++ (e.step i).effects) (askedBy asked i)) past :=
          step_keeps (P := fun d => P d past) (fun _ _ => hstep i _ _ past) e effects asked hmoved
        cases i with
        | work t =>
            rw [takings]
            by_cases ht : t = s
            · subst ht
              rw [if_pos rfl]
              exact ⟨asked, keeps_work hstep htake e effects asked h⟩
            · rw [if_neg ht, List.append_nil]
              exact ⟨_, hquiet⟩
        | tick => exact ⟨asked, keeps_tick hstep htake e effects asked h⟩
        | _ =>
            show ∃ asked', P _ (past ++ [])
            rw [List.append_nil]
            exact ⟨_, hquiet⟩
      obtain ⟨asked', hone⟩ := hone
      have hclock : (e.step i).engine.hub.clock = i.clock e.hub.clock :=
        step_keeps (i := i)
          (P := fun d => d.hub.clock = i.clock e.hub.clock) (fun _ _ h hs => hs.clock.trans h) e
          effects asked rfl
      rw [history, ← List.append_assoc]
      exact ih _ _ _ _ (hclock.symm ▸ hrest) hone

end Keeps

end Engine

end GroundLink
