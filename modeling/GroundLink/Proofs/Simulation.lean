import GroundLink.Proofs.Timers
import GroundLink.Proofs.Work

/-! An engine does with an input what a chain of small steps does, queue by queue
(`Engine.step_reaches`). What holds of a desk after every small step therefore holds of an engine after
every input (`Engine.step_keeps`), and after every run (`Engine.run_keeps`). -/

namespace GroundLink

open Function Relation

namespace Desk

variable {i : Input} {d : Desk} {s : Service}

/-- The small steps of a pass over the timers. -/
inductive FireStep (d : Desk) : Desk → Prop
  | fire {x : Timer Ticket} (armed : x ∈ d.hub.timers.armed)
      (due : x.deadline ≤ d.hub.clock) : FireStep d (d.fire x)

theorem FireStep.step {d d' : Desk} (hs : FireStep d d') : Step i d d' := by
  cases hs with
  | fire armed due => exact .fire armed due

/-- The desks a pass over the timers can come to. -/
abbrev Fires : Desk → Desk → Prop := ReflTransGen FireStep

theorem keeps_of_reaches {P : Desk → Prop} (hstep : ∀ d d', P d → Step i d d' → P d') {d d' : Desk} (h : P d)
    (hreach : Reaches i d d') : P d' := by
  induction hreach with
  | refl => exact h
  | tail _ hlast ih => exact hstep _ _ ih hlast

theorem reaches_tellAll (d : Desk) : Reaches i d d.tellAll :=
  keeps_tellAll (P := Reaches i d) (fun _ _ _ _ howing hreach => hreach.tail (.tell howing)) .refl

theorem reaches_work (d : Desk) (ho : d.owing = []) : Reaches i d (d.turned s ((d.queue s).work s d.hub)) :=
  ReflTransGen.mono (fun _ _ (hs : WorkStep s _ _) => hs.step) _ _ (works_work d ho)

theorem reaches_submit (d : Desk) {task : Task} (admission : Admission) (hi : i.task? s = some task) :
    Reaches i d
      { d.turned s ((d.queue s).submit s d.hub task admission) with
        asked := update d.asked s (d.asked s ++ [task]) } := by
  refine .single ?_
  by_cases ha : admission = .queue ∨ (d.queue s).isIdle = true
  · have hstep : Step i d (d.enrol s task) := .enrol hi
    simpa [turned, JobQueue.submit_admitted ha, enrol, ask, put] using hstep
  · have hbusy : (d.queue s).isIdle = false := by simpa using fun h => ha (.inr h)
    have hstep : Step i d (d.turnAway s task) := .turnAway hi hbusy
    simpa [turned, JobQueue.submit_busy ha, turnAway, ask, put] using hstep

theorem turned_cancelWaiting_none {number : Nat}
    (hw : Fifo.takeFirst? (fun w : Waiting => w.number = number) (d.queue s).waiting.items = none) :
    d.turned s ((d.queue s).cancelWaiting s d.hub number).2 = d := by
  simp [JobQueue.cancelWaiting, Fifo.removeFirst?, hw, turned]

theorem turned_cancelWaiting_some (ho : d.owing = []) {number : Nat} {w : Waiting} {rest : List Waiting}
    (hw : Fifo.takeFirst? (fun w : Waiting => w.number = number) (d.queue s).waiting.items = some (w, rest)) :
    d.turned s ((d.queue s).cancelWaiting s d.hub number).2 = (d.callOff s w rest).tellAll := by
  simp [JobQueue.cancelWaiting, Fifo.removeFirst?, hw, turned, tellAll, callOff, put, ho, JobQueue.results,
    JobQueue.withWaiting]

theorem turned_cancel (ho : d.owing = []) {r : Running} (hr : (d.queue s).running = some r) :
    d.turned s ((d.queue s).cancel s d.hub r.number).2 =
      (d.after s (d.queue s) (r.cancel s d.hub)).tellAll := by
  cases hp : (r.cancel s d.hub).standing <;>
    simp [JobQueue.cancel, hr, hp, turned, tellAll, after, Standing.running?, Standing.owed, Ended.owed, ho,
      JobQueue.results, JobQueue.withRunning]

theorem reaches_cancelWaiting (ho : d.owing = []) (number : Nat) :
    Reaches i d (d.turned s ((d.queue s).cancelWaiting s d.hub number).2) := by
  cases hw : Fifo.takeFirst? (fun w : Waiting => w.number = number) (d.queue s).waiting.items with
  | none =>
      rw [turned_cancelWaiting_none hw]
  | some found =>
      obtain ⟨w, rest⟩ := found
      obtain ⟨_, before, after, hitems, rfl, _⟩ := Fifo.takeFirst?_eq_some hw
      have hstep : Step i d (d.callOff s w (before ++ after)) := .callOff hitems
      rw [turned_cancelWaiting_some ho hw]
      exact .head hstep (reaches_tellAll _)

theorem reaches_cancel (ho : d.owing = []) (number : Nat) :
    Reaches i d (d.turned s ((d.queue s).cancel s d.hub number).2) := by
  cases hr : (d.queue s).running with
  | none => simpa only [JobQueue.cancel, hr] using reaches_cancelWaiting ho number
  | some r =>
      by_cases hn : r.number = number
      · have hstep : Step i d (d.after s (d.queue s) (r.cancel s d.hub)) := .follow (.cancel hr)
        rw [← hn, turned_cancel ho hr]
        exact .head hstep (reaches_tellAll _)
      · simpa only [JobQueue.cancel, hr, if_neg hn] using reaches_cancelWaiting ho number

theorem reaches_deliverAll (header : Header) (m : Message) (subscribers : List Subscriber) :
    ∀ d : Desk, (∀ x ∈ subscribers, x ∈ d.hub.handlers.matching m.kind) →
      Reaches (.receive header m) d (subscribers.foldl (fun d x => d.deliver header m x) d) := by
  induction subscribers with
  | nil =>
      intro d _
      exact .refl
  | cons x rest ih =>
      intro d hx
      have hstep : Step (.receive header m) d (d.deliver header m x) := .deliver rfl (hx x List.mem_cons_self)
      refine .head hstep (ih _ fun y hy => ?_)
      rw [deliver_hub]
      exact hx y (List.mem_cons_of_mem _ hy)

end Desk

namespace Engine

variable {i : Input}

/-- An engine as a desk at rest. -/
def desk (e : Engine) (effects : List Effect) (asked : Service → List Task) : Desk :=
  ⟨e.hub, e.queue, [], effects, asked⟩

theorem queue_withQueue (e : Engine) (q : JobQueue) (s : Service) :
    (e.withQueue q s).queue = update e.queue s q := by
  funext t
  obtain _ | ⟨_ | _⟩ := s <;> obtain _ | ⟨_ | _⟩ := t <;> rfl

theorem queue_withHub (e : Engine) (h : Hub) : ({ e with hub := h } : Engine).queue = e.queue := by
  funext t
  obtain _ | ⟨_ | _⟩ := t <;> rfl

theorem hub_withQueue (e : Engine) (q : JobQueue) (s : Service) : (e.withQueue q s).hub = e.hub := by
  obtain _ | ⟨_ | _⟩ := s <;> rfl

theorem desk_post (e : Engine) (s : Service) (event : Event) (effects : List Effect)
    (asked : Service → List Task) :
    (e.post s event).desk effects asked = (e.desk effects asked).post s event := by
  simp [desk, post, Desk.post, Desk.put, queue_withQueue, hub_withQueue]

theorem desk_deliver (e : Engine) (header : Header) (m : Message) (x : Subscriber) (effects : List Effect)
    (asked : Service → List Task) :
    (e.deliver header m x).desk effects asked = (e.desk effects asked).deliver header m x := by
  cases x with
  | commands => exact e.desk_post _ _ _ _
  | job ticket system =>
      rw [deliver, Desk.deliver]
      split
      · exact e.desk_post _ _ _ _
      · rfl

theorem desk_afterTurn (e : Engine) (s : Service) (t : Turn) (effects : List Effect)
    (asked : Service → List Task) :
    (e.afterTurn s t).engine.desk (effects ++ t.effects) asked = (e.desk effects asked).turned s t := by
  simp [desk, afterTurn, Desk.turned, queue_withHub, queue_withQueue]

theorem desk_work (e : Engine) (s : Service) (effects : List Effect) (asked : Service → List Task) :
    (e.work s).engine.desk (effects ++ (e.work s).effects) asked =
      (e.desk effects asked).turned s ((e.queue s).work s e.hub) :=
  desk_afterTurn { e with acksSeen := _ } s ((e.queue s).work s e.hub) effects asked

theorem desk_receive (e : Engine) (header : Header) (m : Message) (effects : List Effect)
    (asked : Service → List Task) :
    (e.receive header m).desk effects asked =
      (e.hub.handlers.matching m.kind).foldl (fun d x => d.deliver header m x) (e.desk effects asked) :=
  (List.foldl_hom (desk · effects asked) fun e x => (e.desk_deliver header m x effects asked).symm).symm

theorem reaches_work (e : Engine) (s : Service) (effects : List Effect) (asked : Service → List Task) :
    Desk.Reaches i (e.desk effects asked) ((e.work s).engine.desk (effects ++ (e.work s).effects) asked) := by
  rw [desk_work]
  exact Desk.reaches_work (e.desk effects asked) rfl

theorem reaches_receive (e : Engine) (header : Header) (m : Message) (effects : List Effect)
    (asked : Service → List Task) :
    Desk.Reaches (.receive header m) (e.desk effects asked) ((e.receive header m).desk effects asked) := by
  rw [desk_receive]
  exact Desk.reaches_deliverAll header m _ _ fun _ hx => hx

def withTimers (e : Engine) (timers : Timers Ticket) : Engine := { e with hub := { e.hub with timers } }

def expire (x : Timer Ticket) : Timers Ticket × Engine → Timers Ticket × Engine := fun (t, e) =>
  (t, e.post x.tag.service (.expiry x.tag.number x.cookie))

theorem fireTimers_eq (e : Engine) :
    e.fireTimers = (Timers.pass e.hub.clock expire (e.hub.timers, e)).2.withTimers
      (Timers.pass e.hub.clock expire (e.hub.timers, e)).1 := rfl

theorem fires_passFrom (horizon : Nat) (effects : List Effect) (asked : Service → List Task) (fuel : Nat) :
    ∀ (t : Timers Ticket) (e : Engine),
      Desk.Fires ((e.withTimers t).desk effects asked)
        (((Timers.passFrom e.hub.clock horizon expire fuel (t, e)).2.withTimers
          (Timers.passFrom e.hub.clock horizon expire fuel (t, e)).1).desk effects asked) := by
  induction fuel with
  | zero =>
      intro t e
      exact .refl
  | succ fuel ih =>
      intro t e
      rw [Timers.passFrom]
      cases hd : t.due? e.hub.clock horizon with
      | none => exact .refl
      | some x =>
          obtain ⟨harmed, hdue⟩ := Timers.armed_of_due? hd
          have hhub : (e.post x.tag.service (.expiry x.tag.number x.cookie)).hub = e.hub :=
            hub_withQueue _ _ _
          have hstep : Desk.FireStep ((e.withTimers t).desk effects asked)
              (((e.withTimers t).desk effects asked).fire x) := .fire harmed hdue
          have hfire : ((e.withTimers t).desk effects asked).fire x =
              ((e.post x.tag.service (.expiry x.tag.number x.cookie)).withTimers (t.remove x.cookie)).desk
                effects asked := by
            simp [desk, withTimers, Desk.fire, Desk.post, Desk.put, post, queue_withHub, queue_withQueue,
              hub_withQueue]
          rw [hfire] at hstep
          have hrest := ih (t.remove x.cookie) (e.post x.tag.service (.expiry x.tag.number x.cookie))
          rw [hhub] at hrest
          exact .head hstep hrest

theorem fires_fireTimers (e : Engine) (effects : List Effect) (asked : Service → List Task) :
    Desk.Fires (e.desk effects asked) (e.fireTimers.desk effects asked) := by
  rw [fireTimers_eq]
  exact fires_passFrom _ _ _ _ e.hub.timers e

theorem reaches_fireTimers (e : Engine) (effects : List Effect) (asked : Service → List Task) :
    Desk.Reaches i (e.desk effects asked) (e.fireTimers.desk effects asked) :=
  ReflTransGen.mono (fun _ _ (hs : Desk.FireStep _ _) => hs.step) _ _ (e.fires_fireTimers effects asked)

theorem reaches_next {e : Engine} {r : Reaction} {f : Engine → Reaction} {effects : List Effect}
    {asked : Service → List Task} {asked' : Service → List Task}
    (hr : Desk.Reaches i (e.desk effects asked) (r.engine.desk (effects ++ r.effects) asked'))
    (hf : Desk.Reaches i (r.engine.desk (effects ++ r.effects) asked')
      ((f r.engine).engine.desk (effects ++ r.effects ++ (f r.engine).effects) asked')) :
    Desk.Reaches i (e.desk effects asked)
      ((r.next f).engine.desk (effects ++ (r.next f).effects) asked') := by
  rw [Reaction.next, ← List.append_assoc]
  exact hr.trans hf

theorem reaches_tick (e : Engine) (effects : List Effect) (asked : Service → List Task) :
    Desk.Reaches i (e.desk effects asked) (e.tick.engine.desk (effects ++ e.tick.effects) asked) := by
  refine reaches_next (reaches_next ?_ (reaches_work _ _ _ _)) (reaches_work _ _ _ _)
  exact (e.reaches_fireTimers effects asked).trans (reaches_work _ _ _ _)

/-- All that was asked for once an input was taken in. -/
def askedBy (asked : Service → List Task) (i : Input) : Service → List Task :=
  fun s => asked s ++ (i.task? s).toList

theorem askedBy_of_task? {asked : Service → List Task} {s : Service} {task : Task}
    (h : i.task? s = some task) :
    askedBy asked i = update asked s (asked s ++ [task]) := by
  have hother : ∀ t, t ≠ s → i.task? t = none := by
    intro t ht
    cases i with
    | command a =>
        simp only [Input.task?] at h ⊢
        split at h
        · rename_i hs
          exact if_neg (hs ▸ ht)
        · cases h
    | transfer side x admission =>
        simp only [Input.task?] at h ⊢
        split at h
        · rename_i hs
          exact if_neg (hs ▸ ht)
        · cases h
    | _ => rfl
  funext t
  by_cases ht : t = s
  · subst ht
    simp [askedBy, h]
  · simp [askedBy, hother t ht, update_of_ne ht]

theorem askedBy_of_none {asked : Service → List Task} (h : ∀ s, i.task? s = none) :
    askedBy asked i = asked := by
  funext s
  simp [askedBy, h s]

def under (e : Engine) (i : Input) : Engine := { e with hub := e.hub.under i }

theorem reaches_submit (e : Engine) {s : Service} {task : Task} (admission : Admission)
    (hi : i.task? s = some task) (effects : List Effect) (asked : Service → List Task) :
    Desk.Reaches i (e.desk effects asked)
      ((e.submit s task admission).engine.desk (effects ++ (e.submit s task admission).effects)
        (askedBy asked i)) := by
  have hsubmit := Desk.reaches_submit (e.desk effects asked) admission hi
  have hturn := desk_afterTurn e s ((e.queue s).submit s e.hub task admission) effects
    (update asked s (asked s ++ [task]))
  rw [askedBy_of_task? hi]
  exact hturn.symm ▸ hsubmit

theorem reaches_cancel (e : Engine) (side : Side) (number : Nat) (effects : List Effect)
    (asked : Service → List Task) :
    Desk.Reaches i (e.desk effects asked)
      ((e.cancel side number).2.engine.desk (effects ++ (e.cancel side number).2.effects) asked) := by
  have hcancel := Desk.reaches_cancel (i := i) (d := e.desk effects asked) (s := .mission side) rfl number
  have hturn :=
    desk_afterTurn e (.mission side) ((e.queue (.mission side)).cancel (.mission side) e.hub number).2
      effects asked
  exact hturn.symm ▸ hcancel

/-- What an engine does with an input is a chain of small steps. -/
theorem step_reaches (e : Engine) (i : Input) (effects : List Effect) (asked : Service → List Task) :
    Desk.Reaches i ((e.under i).desk effects asked)
      ((e.step i).engine.desk (effects ++ (e.step i).effects) (askedBy asked i)) := by
  cases i with
  | command a => exact reaches_submit e .queue rfl effects asked
  | transfer side t admission =>
      have hi : (Input.transfer side t admission).task? (.mission side) = some (.transfer t) := if_pos rfl
      exact reaches_submit e admission hi effects asked
  | cancel side number =>
      rw [askedBy_of_none fun _ => rfl]
      exact reaches_cancel e side number effects asked
  | receive header m =>
      rw [askedBy_of_none fun _ => rfl]
      simp only [step, List.append_nil]
      exact reaches_receive e header m effects asked
  | fireTimers =>
      rw [askedBy_of_none fun _ => rfl]
      simp only [step, List.append_nil]
      exact reaches_fireTimers e effects asked
  | work service =>
      rw [askedBy_of_none fun _ => rfl]
      exact reaches_work e service effects asked
  | tick =>
      rw [askedBy_of_none fun _ => rfl]
      exact reaches_tick e effects asked
  | _ =>
      rw [askedBy_of_none fun _ => rfl]
      simp only [step, List.append_nil]
      exact .refl

/-- What holds once the time and the link are as an input leaves them, and what small steps keep, holds
after the input. -/
theorem step_keeps {P : Desk → Prop} (hstep : ∀ d d', P d → Desk.Step i d d' → P d') (e : Engine)
    (effects : List Effect) (asked : Service → List Task) (h : P ((e.desk effects asked).under i)) :
    P ((e.step i).engine.desk (effects ++ (e.step i).effects) (askedBy asked i)) :=
  Desk.keeps_of_reaches hstep h (step_reaches e i effects asked)

/-- The jobs that inputs submit to each queue. -/
def submitted (inputs : List Input) : Service → List Task := fun s => inputs.filterMap (Input.task? s)

/-- The desk at the end of a run that began at rest. -/
def deskAfter (e : Engine) (inputs : List Input) : Desk :=
  (e.run inputs).engine.desk (e.run inputs).effects (submitted inputs)

/-- What small steps and changes of the time and the link keep holds after every run. -/
theorem run_keeps {P : Desk → Prop} (hunder : ∀ (i : Input) d, P d → P (d.under i))
    (hstep : ∀ (i : Input) d d', P d → Desk.Step i d d' → P d') (e : Engine) (inputs : List Input)
    (h : P (e.desk [] fun _ => [])) : P (e.deskAfter inputs) := by
  have hrun : ∀ (inputs : List Input) (e : Engine) (effects : List Effect) (asked : Service → List Task),
      P (e.desk effects asked) →
        P ((e.run inputs).engine.desk (effects ++ (e.run inputs).effects)
          (fun s => asked s ++ submitted inputs s)) := by
    intro inputs
    induction inputs with
    | nil =>
        intro e effects asked h
        simpa [run, submitted] using h
    | cons i rest ih =>
        intro e effects asked h
        have hone := step_keeps (hstep i) e effects asked (hunder i _ h)
        have hrest := ih _ _ _ hone
        have hasked : (fun s => askedBy asked i s ++ submitted rest s) =
            fun s => asked s ++ submitted (i :: rest) s := by
          funext s
          cases ht : i.task? s <;> simp [askedBy, submitted, ht]
        rw [hasked] at hrest
        simpa [run, Reaction.next, List.append_assoc] using hrest
  simpa [deskAfter] using hrun inputs e [] (fun _ => []) h

end Engine

end GroundLink
