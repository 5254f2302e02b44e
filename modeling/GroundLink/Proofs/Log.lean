import GroundLink.Proofs.Deed
import GroundLink.Proofs.History

/-! The log of a queue: all that is done in it during a run, in order, every step of a job with the hub it
finds. The log is computed from the engine and its inputs, and a desk and the log of one of its queues go
together through the same small steps. So what is shown of them for small steps holds at the end of every
run (`Engine.keeps_log`). -/

namespace GroundLink

open Function Relation

namespace Running

/-- What is done with a list of events while a job is under way, and with those behind its end. -/
def deeds (s : Service) : List Event → Running → Hub → List Deed
  | [], _, _ => []
  | e :: rest, r, h =>
    let p := r.take s h e
    r.deed h e :: match p.standing with
      | .ended _ => rest.map .dropped
      | .running r' => deeds s rest r' p.hub

end Running

/-- The starts of jobs until one stays under way. -/
def startDeeds (s : Service) : List Waiting → Hub → List Deed
  | [], _ => []
  | w :: rest, h =>
    let p := w.start s h
    .started w h :: match p.standing with
      | .running _ => []
      | .ended _ => startDeeds s rest p.hub

namespace JobQueue

/-- What is done when a queue works. -/
def deeds (q : JobQueue) (s : Service) (h : Hub) : List Deed :=
  match q.running with
  | none => q.events.map .dropped ++ startDeeds s q.waiting.items h
  | some r =>
    let p := Running.takeAll s q.events r h
    r.deeds s q.events h ++ match p.standing with
      | .running _ => []
      | .ended _ => startDeeds s q.waiting.items p.hub

/-- What is done when a job is to be called off that is not under way. -/
def calledOff (q : JobQueue) (number : Nat) : List Deed :=
  (q.waiting.removeFirst? (·.number = number)).toList.map fun x => .calledOff x.1

def cancelDeeds (q : JobQueue) (h : Hub) (number : Nat) : List Deed :=
  match q.running with
  | none => q.calledOff number
  | some r => if r.number = number then [.cancelled r h] else q.calledOff number

def submitDeeds (q : JobQueue) (admission : Admission) : List Deed :=
  if admission = .queue ∨ q.isIdle then [] else [.turnedAway q.submitted]

/-- The events that are left for a queue while it becomes another that only differs in them. -/
def news (q q' : JobQueue) : List Deed := (q'.events.drop q.events.length).map .posted

end JobQueue

namespace Engine

/-- What is done in a queue when the engine takes an input in. -/
def deeds (e : Engine) (s : Service) : Input → List Deed
  | .transfer side _ admission => if .mission side = s then (e.queue s).submitDeeds admission else []
  | .cancel side number => if .mission side = s then (e.queue s).cancelDeeds e.hub number else []
  | .receive header m => (e.queue s).news ((e.receive header m).queue s)
  | .fireTimers => (e.queue s).news (e.fireTimers.queue s)
  | .work t => if t = s then (e.queue s).deeds s e.hub else []
  | .tick => (e.queue s).news (e.fireTimers.queue s) ++ ((e.atTurn s).queue s).deeds s (e.atTurn s).hub
  | _ => []

/-- What is done in a queue in a run. -/
def log (e : Engine) (s : Service) : List Input → List Deed
  | [] => []
  | i :: rest => e.deeds s i ++ (e.step i).engine.log s rest

end Engine

namespace Desk

variable {i : Input} {s : Service} {d d' : Desk} {deeds : List Deed}

section Keeps

variable {P : Desk → List Deed → Prop}
  (hact : ∀ d d' deeds past, P d past → Act i s d deeds d' → P d' (past ++ deeds))

include hact

theorem logs_takeAll (events : List Event) :
    ∀ (d : Desk) (r : Running) (past : List Deed), (d.queue s).running = some r →
      (d.queue s).events = events →
      P d past →
        ∃ own left, r.deeds s events d.hub = own ++ left.map .dropped ∧
          P (d.after s ((d.queue s).withEvents left) (Running.takeAll s events r d.hub)) (past ++ own) ∧
            ∀ r', (Running.takeAll s events r d.hub).standing = .running r' → left = [] := by
  induction events with
  | nil =>
      intro d r past hr he hP
      refine ⟨[], [], rfl, ?_, fun _ _ => rfl⟩
      rw [Running.takeAll, after_running d s ((d.queue s).withEvents []) hr, ← he,
        JobQueue.withEvents_self, put_self, List.append_nil]
      exact hP
  | cons e rest ih =>
      intro d r past hr he hP
      have hone := hact _ _ _ past hP (.take hr he)
      cases hp : (r.take s d.hub e).standing with
      | ended x =>
          refine ⟨[r.deed d.hub e], rest, by simp [Running.deeds, hp], ?_, fun r' hr' => ?_⟩
          · simpa only [Running.takeAll, hp] using hone
          · simp only [Running.takeAll, hp] at hr'
            cases hr'
      | running r₁ =>
          obtain ⟨own, left, hdeeds, hrest, hleft⟩ :=
            ih (d.after s ((d.queue s).withEvents rest) (r.take s d.hub e)) r₁ _
              (by simp [after, hp, Standing.running?]) (by simp [after]) hone
          have htwo := after_after d s ((d.queue s).withEvents rest) ((d.queue s).withEvents left)
            (r.take s d.hub e) (Running.takeAll s rest r₁ (r.take s d.hub e).hub) hp
          refine ⟨r.deed d.hub e :: own, left, ?_, ?_, fun r' hr' => hleft r' ?_⟩
          · simp only [Running.deeds, hp, List.cons_append, List.cons.injEq, true_and]
            exact hdeeds
          · simp only [Running.takeAll, hp, ← htwo]
            simpa [after] using hrest
          · simp only [Running.takeAll, hp, Progress.preceded] at hr'
            exact hr'

theorem logs_startNext (waiting : List Waiting) :
    ∀ (d : Desk) (past : List Deed), (d.queue s).running = none → (d.queue s).events = [] →
      (d.queue s).waiting.items = waiting → P d past →
        P { hub := (startNext s waiting d.hub).hub
            queue := update d.queue s
              (((d.queue s).withWaiting (startNext s waiting d.hub).waiting).withRunning
                (startNext s waiting d.hub).running)
            owing := d.owing ++ (startNext s waiting d.hub).ended.map (Ended.owed s)
            effects := d.effects ++ (startNext s waiting d.hub).effects
            asked := d.asked } (past ++ startDeeds s waiting d.hub) := by
  induction waiting with
  | nil =>
      intro d past hr he hw hP
      have hq : ((d.queue s).withWaiting []).withRunning none = d.queue s := by
        rw [← hr, ← hw]
        rfl
      simpa only [startNext, startDeeds, hq, update_eq_self, List.map_nil, List.append_nil] using hP
  | cons w rest ih =>
      intro d past hr he hw hP
      have hone := hact _ _ _ past hP (.start hr he hw)
      cases hp : (w.start s d.hub).standing with
      | running r => simpa [startNext, startDeeds, hp, after, Standing.running?, Standing.owed] using hone
      | ended x =>
          have hrest := ih (d.after s ((d.queue s).withWaiting rest) (w.start s d.hub)) _
            (by simp [after, hp, Standing.running?]) (by simpa [after] using he) (by simp [after]) hone
          simpa [startNext, startDeeds, hp, after, Standing.running?, Standing.owed,
            List.append_assoc] using hrest

theorem logs_tellAll {past : List Deed} (h : P d past) : P d.tellAll past :=
  keeps_tellAll (P := fun d => P d past)
    (fun _ _ _ _ howing h => List.append_nil past ▸ hact _ _ _ past h (.tell howing)) h

theorem logs_goOn (ended : List Ended) (hr : (d.queue s).running = none)
    (ho : d.owing = ended.map (Ended.owed s)) {past : List Deed} (h : P d past) :
    P ({ d with owing := [] }.turned s ((d.queue s).goOn s d.hub [] ended))
      (past ++ (d.queue s).events.map .dropped ++ startDeeds s (d.queue s).waiting.items d.hub) := by
  have hclear := hact _ _ _ past h (.clear hr)
  have hstart := logs_startNext hact (d.queue s).waiting.items (d.put s ((d.queue s).withEvents [])) _
    (by simp [put, hr]) (by simp [put]) (by simp [put]) hclear
  have htell := logs_tellAll hact hstart
  simpa [put, tellAll, turned, JobQueue.goOn, ho, results_eq_map_owed, JobQueue.withRunning,
    JobQueue.withWaiting, JobQueue.withEvents] using htell

/-- What small steps keep of a desk and the log of a queue, the work of the queue keeps. -/
theorem logs_work (ho : d.owing = []) (past : List Deed) (h : P d past) :
    P (d.turned s ((d.queue s).work s d.hub)) (past ++ (d.queue s).deeds s d.hub) := by
  cases hr : (d.queue s).running with
  | none =>
      have hgo := logs_goOn hact [] hr ho h
      rw [← ho] at hgo
      simpa only [JobQueue.work, JobQueue.deeds, hr, List.append_assoc] using hgo
  | some r =>
      obtain ⟨own, left, hdeeds, hall, hleft⟩ := logs_takeAll hact (d.queue s).events d r past hr rfl h
      cases hp : (Running.takeAll s (d.queue s).events r d.hub).standing with
      | running r' =>
          rw [hleft r' hp] at hall hdeeds
          simpa [JobQueue.work, JobQueue.deeds, hr, hp, after, turned, Standing.running?, Standing.owed, ho,
            JobQueue.withRunning, JobQueue.withEvents, hdeeds] using hall
      | ended x =>
          have hgo := logs_goOn hact (s := s)
            (d := d.after s ((d.queue s).withEvents left) (Running.takeAll s (d.queue s).events r d.hub)) [x]
            (by simp [after, hp, Standing.running?]) (by simp [after, hp, Standing.owed, ho]) hall
          simpa [JobQueue.work, JobQueue.deeds, JobQueue.goOn, hr, hp, after, turned, ho, hdeeds] using hgo

theorem logs_cancelWaiting (ho : d.owing = []) (number : Nat) {past : List Deed} (h : P d past) :
    P (d.turned s ((d.queue s).cancelWaiting s d.hub number).2) (past ++ (d.queue s).calledOff number) := by
  cases hw : Fifo.takeFirst? (fun w : Waiting => w.number = number) (d.queue s).waiting.items with
  | none =>
      rw [turned_cancelWaiting_none hw, JobQueue.calledOff, Fifo.removeFirst?, hw]
      simpa using h
  | some found =>
      obtain ⟨w, rest⟩ := found
      obtain ⟨_, before, after, hitems, rfl, _⟩ := Fifo.takeFirst?_eq_some hw
      rw [turned_cancelWaiting_some ho hw, JobQueue.calledOff, Fifo.removeFirst?, hw]
      exact logs_tellAll hact (hact _ _ _ past h (.callOff hitems))

theorem logs_cancel (ho : d.owing = []) (number : Nat) (past : List Deed) (h : P d past) :
    P (d.turned s ((d.queue s).cancel s d.hub number).2) (past ++ (d.queue s).cancelDeeds d.hub number) := by
  cases hr : (d.queue s).running with
  | none => simpa only [JobQueue.cancel, JobQueue.cancelDeeds, hr] using logs_cancelWaiting hact ho number h
  | some r =>
      by_cases hn : r.number = number
      · rw [← hn, turned_cancel ho hr]
        simp only [JobQueue.cancelDeeds, hr, if_true]
        exact logs_tellAll hact (hact _ _ _ past h (.cancel hr))
      · simpa only [JobQueue.cancel, JobQueue.cancelDeeds, hr, if_neg hn] using
          logs_cancelWaiting hact ho number h

theorem logs_submit (ho : d.owing = []) {task : Task} (admission : Admission) (hi : i.task? s = some task)
    (past : List Deed) (h : P d past) :
    P { d.turned s ((d.queue s).submit s d.hub task admission) with
        asked := update d.asked s (d.asked s ++ [task]) } (past ++ (d.queue s).submitDeeds admission) := by
  by_cases ha : admission = .queue ∨ (d.queue s).isIdle = true
  · have hone := hact _ _ _ past h (.enrol hi)
    simpa [turned, JobQueue.submit_admitted ha, JobQueue.submitDeeds, if_pos ha, Desk.enrol, ask,
      put] using hone
  · have hbusy : (d.queue s).isIdle = false := by simpa using fun h => ha (.inr h)
    have hone := hact _ _ _ past h (.turnAway hi hbusy ho)
    simpa [turned, JobQueue.submit_busy ha, JobQueue.submitDeeds, if_neg ha, Desk.turnAway, ask,
      put] using hone

end Keeps

section Observe

variable {P : Desk → List Deed → Prop}
  (hown : ∀ d d' deeds past, P d past → Act i s d deeds d' → P d' (past ++ deeds))
  (hother : ∀ t d d' deeds past, t ≠ s → P d past → Act i t d deeds d' → P d' past)

theorem events_post (d : Desk) (s t : Service) (e : Event) :
    ((d.post t e).queue s).events = (d.queue s).events ++ if t = s then [e] else [] := by
  by_cases ht : t = s
  · subst ht
    simp [post, put, JobQueue.post]
  · simp [post, put, update_of_ne (Ne.symm ht), ht]

include hown hother

/-- One more event is left for a queue, this or another. -/
theorem logs_post {t : Service} {e : Event} {queue : JobQueue} {past : List Deed}
    (h : ∃ news, (d.queue s).events = queue.events ++ news ∧ P d (past ++ news.map .posted))
    (hact : Act i t d [.posted e] d')
    (hevents : (d'.queue s).events = (d.queue s).events ++ if t = s then [e] else []) :
    ∃ news, (d'.queue s).events = queue.events ++ news ∧ P d' (past ++ news.map .posted) := by
  obtain ⟨news, hold, hP⟩ := h
  by_cases ht : t = s
  · subst ht
    refine ⟨news ++ [e], ?_, ?_⟩
    · rw [hevents, hold, if_pos rfl, List.append_assoc]
    · rw [List.map_append, ← List.append_assoc]
      exact hown _ _ _ _ hP hact
  · refine ⟨news, ?_, hother _ _ _ _ _ ht hP hact⟩
    rw [hevents, hold, if_neg ht, List.append_nil]

theorem logs_fires (hfires : Fires d d') {past : List Deed} (h : P d past) :
    P d' (past ++ (d.queue s).news (d'.queue s)) := by
  have hnews : ∃ news, (d'.queue s).events = (d.queue s).events ++ news ∧
      P d' (past ++ news.map .posted) := by
    induction hfires with
    | refl => exact ⟨[], by simp, by simpa using h⟩
    | tail _ hlast ih =>
        cases hlast with
        | fire armed due => exact logs_post hown hother ih (.fire armed due rfl) (events_post _ _ _ _)
  obtain ⟨news, hevents, hP⟩ := hnews
  rw [JobQueue.news, hevents, List.drop_left]
  exact hP

theorem logs_deliverAll {header : Header} {m : Message} (hi : i = .receive header m)
    (subscribers : List Subscriber) (hsubscribed : ∀ x ∈ subscribers, x ∈ d.hub.handlers.matching m.kind)
    {past : List Deed} (h : P d past) :
    P (subscribers.foldl (fun d x => d.deliver header m x) d)
      (past ++ (d.queue s).news ((subscribers.foldl (fun d x => d.deliver header m x) d).queue s)) := by
  have hnews : ∀ (subscribers : List Subscriber) (d' : Desk), d'.hub = d.hub →
      (∀ x ∈ subscribers, x ∈ d.hub.handlers.matching m.kind) →
      (∃ news, (d'.queue s).events = (d.queue s).events ++ news ∧ P d' (past ++ news.map .posted)) →
        ∃ news, ((subscribers.foldl (fun d x => d.deliver header m x) d').queue s).events =
            (d.queue s).events ++ news ∧
          P (subscribers.foldl (fun d x => d.deliver header m x) d') (past ++ news.map .posted) := by
    intro subscribers
    induction subscribers with
    | nil => exact fun d' _ _ h => h
    | cons x rest ih =>
        intro d' hhub hx hd'
        refine ih _ ((deliver_hub _ _ _ _).trans hhub) (fun y hy => hx y (List.mem_cons_of_mem _ hy)) ?_
        have hmem : x ∈ d'.hub.handlers.matching m.kind := hhub ▸ hx x List.mem_cons_self
        show ∃ news, ((d'.deliver header m x).queue s).events = _ ∧ P (d'.deliver header m x) _
        rcases deliver_event? d' header m x with hsame | ⟨t, e, he, hpost⟩
        · rwa [hsame]
        · rw [hpost]
          exact logs_post hown hother hd' (.deliver hi hmem he) (events_post _ _ _ _)
  obtain ⟨news, hevents, hP⟩ := hnews subscribers d rfl hsubscribed ⟨[], by simp, by simpa using h⟩
  rw [JobQueue.news, hevents, List.drop_left]
  exact hP

end Observe

end Desk

namespace Engine

section Keeps

variable {i : Input} {s : Service} {P : Desk → List Deed → Prop}
  (hown : ∀ d d' deeds past, P d past → Desk.Act i s d deeds d' → P d' (past ++ deeds))
  (hother : ∀ t d d' deeds past, t ≠ s → P d past → Desk.Act i t d deeds d' → P d' past)

include hown hother

theorem logs_submit {e : Engine} {t : Service} {task : Task} (admission : Admission)
    (hi : i.task? t = some task) (effects : List Effect) (asked : Service → List Task) {past : List Deed}
    (h : P (e.desk effects asked) past) :
    P ((e.submit t task admission).engine.desk (effects ++ (e.submit t task admission).effects)
      (askedBy asked i)) (past ++ if t = s then (e.queue t).submitDeeds admission else []) := by
  have hturn := desk_afterTurn e t ((e.queue t).submit t e.hub task admission) effects
    (update asked t (asked t ++ [task]))
  rw [askedBy_of_task? hi]
  by_cases ht : t = s
  · subst ht
    rw [if_pos rfl]
    exact hturn.symm ▸ Desk.logs_submit hown (d := e.desk effects asked) rfl admission hi _ h
  · rw [if_neg ht, List.append_nil]
    exact hturn.symm ▸ Desk.logs_submit (P := fun d _ => P d past) (fun _ _ _ _ => hother _ _ _ _ _ ht)
      (d := e.desk effects asked) rfl admission hi [] h

theorem logs_cancel {e : Engine} (t : Service) (number : Nat) (effects : List Effect)
    (asked : Service → List Task) {past : List Deed} (h : P (e.desk effects asked) past) :
    P ((e.afterTurn t ((e.queue t).cancel t e.hub number).2).engine.desk
        (effects ++ ((e.queue t).cancel t e.hub number).2.effects) asked)
      (past ++ if t = s then (e.queue t).cancelDeeds e.hub number else []) := by
  have hturn := desk_afterTurn e t ((e.queue t).cancel t e.hub number).2 effects asked
  by_cases ht : t = s
  · subst ht
    rw [if_pos rfl]
    exact hturn.symm ▸ Desk.logs_cancel hown (d := e.desk effects asked) rfl number _ h
  · rw [if_neg ht, List.append_nil]
    exact hturn.symm ▸ Desk.logs_cancel (P := fun d _ => P d past) (fun _ _ _ _ => hother _ _ _ _ _ ht)
      (d := e.desk effects asked) rfl number [] h

theorem logs_work (e : Engine) (t : Service) (effects : List Effect) (asked : Service → List Task)
    {past : List Deed} (h : P (e.desk effects asked) past) :
    P ((e.work t).engine.desk (effects ++ (e.work t).effects) asked)
      (past ++ if t = s then (e.queue t).deeds t e.hub else []) := by
  have hturn := fun acksSeen =>
    desk_afterTurn { e with acksSeen } t ((e.queue t).work t e.hub) effects asked
  by_cases ht : t = s
  · subst ht
    rw [if_pos rfl]
    exact (hturn _).symm ▸ Desk.logs_work hown (d := e.desk effects asked) rfl _ h
  · rw [if_neg ht, List.append_nil]
    exact (hturn _).symm ▸ Desk.logs_work (P := fun d _ => P d past) (fun _ _ _ _ => hother _ _ _ _ _ ht)
      (d := e.desk effects asked) rfl [] h

theorem logs_fireTimers (e : Engine) (effects : List Effect) (asked : Service → List Task)
    {past : List Deed} (h : P (e.desk effects asked) past) :
    P (e.fireTimers.desk effects asked) (past ++ (e.queue s).news (e.fireTimers.queue s)) :=
  Desk.logs_fires hown hother (e.fires_fireTimers effects asked) h

theorem logs_receive (e : Engine) {header : Header} {m : Message} (hi : i = .receive header m)
    (effects : List Effect) (asked : Service → List Task) {past : List Deed}
    (h : P (e.desk effects asked) past) :
    P ((e.receive header m).desk effects asked)
      (past ++ (e.queue s).news ((e.receive header m).queue s)) := by
  have hall := Desk.logs_deliverAll hown hother hi
    (e.hub.handlers.matching m.kind) (fun _ hx => hx) h
  have hdesk := e.desk_receive header m effects asked
  have hqueue : (e.receive header m).queue s = ((e.receive header m).desk effects asked).queue s := rfl
  rw [hqueue, hdesk]
  exact hall

theorem logs_tick (e : Engine) (effects : List Effect) (asked : Service → List Task) {past : List Deed}
    (h : P (e.desk effects asked) past) :
    P (e.tick.engine.desk (effects ++ e.tick.effects) asked) (past ++ e.deeds s .tick) := by
  have hfire := logs_fireTimers hown hother e effects asked h
  have hcommands := logs_work hown hother _ .commands effects asked hfire
  have hclient := logs_work hown hother _ (.mission .client) _ asked hcommands
  have hserver := logs_work hown hother _ (.mission .server) _ asked hclient
  obtain _ | ⟨_ | _⟩ := s
  all_goals simpa [tick, Reaction.next, deeds, atTurn] using hserver

/-- What small steps keep of a desk and of the log of a queue holds after an input, with what is done then. -/
theorem logs_step (e : Engine) (effects : List Effect) (asked : Service → List Task) {past : List Deed}
    (h : P ((e.desk effects asked).under i) past) :
    P ((e.step i).engine.desk (effects ++ (e.step i).effects) (askedBy asked i)) (past ++ e.deeds s i) := by
  cases i with
  | command a =>
      have hnone : ((e.queue .commands).submitDeeds .queue) = [] := if_pos (.inl rfl)
      have hi : (Input.command a).task? .commands = some (.command a) := rfl
      have hsubmit := logs_submit hown hother .queue hi effects asked h
      rw [hnone, ite_self] at hsubmit
      exact hsubmit
  | transfer side t admission =>
      have hi : (Input.transfer side t admission).task? (.mission side) = some (.transfer t) := if_pos rfl
      have hsubmit := logs_submit hown hother admission hi effects asked h
      by_cases hs : .mission side = s
      · subst hs
        exact hsubmit
      · rw [deeds, if_neg hs]
        rwa [if_neg hs] at hsubmit
  | cancel side number =>
      have hcancel := logs_cancel hown hother (.mission side) number effects asked h
      rw [askedBy_of_none fun _ => rfl]
      by_cases hs : .mission side = s
      · subst hs
        exact hcancel
      · rw [deeds, if_neg hs]
        rwa [if_neg hs] at hcancel
  | receive header m =>
      rw [askedBy_of_none fun _ => rfl]
      simp only [step, List.append_nil]
      exact logs_receive hown hother e rfl effects asked h
  | fireTimers =>
      rw [askedBy_of_none fun _ => rfl]
      simp only [step, List.append_nil]
      exact logs_fireTimers hown hother e effects asked h
  | work t =>
      have hwork := logs_work hown hother e t effects asked h
      rw [askedBy_of_none fun _ => rfl]
      by_cases hs : t = s
      · subst hs
        exact hwork
      · rw [deeds, if_neg hs]
        rwa [if_neg hs] at hwork
  | tick =>
      rw [askedBy_of_none fun _ => rfl]
      exact logs_tick hown hother e effects asked h
  | _ =>
      rw [askedBy_of_none fun _ => rfl]
      simp only [step, deeds, List.append_nil]
      exact h

end Keeps

/-- As small steps are kept up with, so is a run, also if what is to be shown looks at
the inputs that are left. -/
theorem logs_along {s : Service} {P : List Input → Desk → List Deed → Prop}
    (hown : ∀ i rest d d' deeds past, P rest d past → Desk.Act i s d deeds d' → P rest d' (past ++ deeds))
    (hother : ∀ i rest t d d' deeds past, t ≠ s → P rest d past → Desk.Act i t d deeds d' → P rest d' past)
    (hunder : ∀ (i : Input) rest d past, P (i :: rest) d past → P rest (d.under i) past)
    (inputs : List Input) :
    ∀ (e : Engine) (effects : List Effect) (asked : Service → List Task) (past : List Deed),
      P inputs (e.desk effects asked) past →
        P [] ((e.run inputs).engine.desk (effects ++ (e.run inputs).effects) fun s => asked s ++
          submitted inputs s) (past ++ e.log s inputs) := by
  induction inputs with
  | nil =>
      intro e effects asked past h
      simpa [run, log, submitted] using h
  | cons i rest ih =>
      intro e effects asked past h
      have hone := logs_step (hown i rest) (hother i rest) e effects asked (hunder i rest _ past h)
      have hrest := ih _ _ _ _ hone
      have hasked : (fun s => askedBy asked i s ++ submitted rest s) =
          fun s => asked s ++ submitted (i :: rest) s := by
        funext s
        cases ht : i.task? s <;> simp [askedBy, submitted, ht]
      rw [hasked] at hrest
      simpa [run, log, Reaction.next, List.append_assoc] using hrest

theorem logs_run {s : Service} {P : Desk → List Deed → Prop}
    (hown : ∀ i d d' deeds past, P d past → Desk.Act i s d deeds d' → P d' (past ++ deeds))
    (hother : ∀ i t d d' deeds past, t ≠ s → P d past → Desk.Act i t d deeds d' → P d' past)
    (hunder : ∀ (i : Input) d past, P d past → P (d.under i) past) (inputs : List Input) :
    ∀ (e : Engine) (effects : List Effect) (asked : Service → List Task) (past : List Deed),
      P (e.desk effects asked) past →
        P ((e.run inputs).engine.desk (effects ++ (e.run inputs).effects) fun s => asked s ++
          submitted inputs s) (past ++ e.log s inputs) :=
  logs_along (P := fun _ => P) (fun i _ => hown i) (fun i _ => hother i) (fun i _ => hunder i) inputs

theorem log_append (e : Engine) (s : Service) (a b : List Input) :
    e.log s (a ++ b) = e.log s a ++ (e.run a).engine.log s b := by
  induction a generalizing e with
  | nil => rfl
  | cons i rest ih => simp [log, run, Reaction.next, ih]

theorem deskAfter_append (e : Engine) (a b : List Input) :
    e.deskAfter (a ++ b) = ((e.run a).engine.run b).engine.desk
      ((e.run a).effects ++ ((e.run a).engine.run b).effects) fun s => submitted a s ++ submitted b s := by
  have hasked : submitted (a ++ b) = fun s => submitted a s ++ submitted b s := by
    funext s
    exact List.filterMap_append
  rw [deskAfter, run_append, hasked, Reaction.next]

/-- What small steps and changes of the time and the link keep of a desk and of the log of a queue holds at
the end of a run that began at rest. -/
theorem keeps_log {s : Service} {P : Desk → List Deed → Prop}
    (hunder : ∀ (i : Input) d past, P d past → P (d.under i) past)
    (hown : ∀ i d d' deeds past, d.Sound → P d past → Desk.Act i s d deeds d' → P d' (past ++ deeds))
    (hother : ∀ i t d d' deeds past, t ≠ s → d.Sound → P d past → Desk.Act i t d deeds d' → P d' past)
    (config : Config) (link : Link) (clock : Instant) (inputs : List Input)
    (h : P ((idle config link clock).desk [] fun _ => []) []) :
    P ((idle config link clock).deskAfter inputs) ((idle config link clock).log s inputs) := by
  have hrun := logs_run (s := s) (P := fun d past => d.Sound ∧ P d past)
    (fun i d d' deeds past h hact => ⟨h.1.step hact.step, hown i d d' deeds past h.1 h.2 hact⟩)
    (fun i t d d' deeds past ht h hact => ⟨h.1.step hact.step, hother i t d d' deeds past ht h.1 h.2 hact⟩)
    (fun i d past h => ⟨h.1.under i, hunder i d past h.2⟩) inputs (idle config link clock) [] (fun _ => []) []
    ⟨sound_idle config link clock, h⟩
  simpa [deskAfter] using hrun.2

/-- The same of a run in which the clock does not go back. -/
theorem keeps_log_steady {s : Service} {P : Desk → List Deed → Prop}
    (hunder : ∀ (i : Input) d past, d.hub.clock ≤ i.clock d.hub.clock → P d past → P (d.under i) past)
    (hown : ∀ i d d' deeds past, d.Sound → P d past → Desk.Act i s d deeds d' → P d' (past ++ deeds))
    (hother : ∀ i t d d' deeds past, t ≠ s → d.Sound → P d past → Desk.Act i t d deeds d' → P d' past)
    (config : Config) (link : Link) {clock : Instant} {inputs : List Input}
    (hsteady : ClockSteady clock inputs) (h : P ((idle config link clock).desk [] fun _ => []) []) :
    P ((idle config link clock).deskAfter inputs) ((idle config link clock).log s inputs) := by
  have hrun := logs_along (s := s) (P := fun rest d past => ClockSteady d.hub.clock rest ∧ d.Sound ∧ P d past)
    (fun i rest d d' deeds past h hact =>
      ⟨hact.step.clock.symm ▸ h.1, h.2.1.step hact.step, hown i d d' deeds past h.2.1 h.2.2 hact⟩)
    (fun i rest t d d' deeds past ht h hact =>
      ⟨hact.step.clock.symm ▸ h.1, h.2.1.step hact.step, hother i t d d' deeds past ht h.2.1 h.2.2 hact⟩)
    (fun i rest d past h => ⟨h.1.2, h.2.1.under i, hunder i d past h.1.1 h.2.2⟩) inputs
      (idle config link clock) []
    (fun _ => []) [] ⟨hsteady, sound_idle config link clock, h⟩
  simpa [deskAfter] using hrun.2.2

end Engine

end GroundLink
