import GroundLink.Proofs.Taking

/-! How a queue works. Its work is a chain of small steps on its own jobs (`Desk.WorkStep`), each of which
is settled by what the desk is like; it ends when the queue has heard of everything, has a job under way
if it has any, and every outcome is told (`Desk.Done`). So whatever small steps keep, the work keeps
(`Desk.keeps_work`), and there is one desk only that the work can come to (`Desk.Works.unique`). -/

namespace GroundLink

open Function Relation

/-- A queue that has worked has heard of everything, and if none of its jobs is under way it has none. -/
def JobQueue.Rested (q : JobQueue) : Prop := q.events = [] ∧ (q.running = none → q.waiting.items = [])

theorem startNext_waiting (s : Service) (waiting : List Waiting) (h : Hub) :
    (startNext s waiting h).running = none → (startNext s waiting h).waiting = [] := by
  induction waiting generalizing h with
  | nil =>
      intro _
      exact rfl
  | cons w rest ih =>
      rw [startNext]
      cases hp : (w.start s h).standing with
      | running r =>
          intro hnone
          cases hnone
      | ended e => exact ih (w.start s h).hub

namespace Desk

variable {i : Input} {d d' d₁ d₂ : Desk} {s : Service}

/-- The small steps of a queue that works: its job takes an event in; when none is under way the events
left are dropped and the next job starts; and in the end outcomes are told. -/
inductive WorkStep (s : Service) (d : Desk) : Desk → Prop
  | take {r : Running} {e : Event} {rest : List Event} (running : (d.queue s).running = some r)
      (events : (d.queue s).events = e :: rest) :
      WorkStep s d (d.after s ((d.queue s).withEvents rest) (r.take s d.hub e))
  | clear (idle : (d.queue s).running = none) (events : (d.queue s).events ≠ []) :
      WorkStep s d (d.put s ((d.queue s).withEvents []))
  | start {w : Waiting} {rest : List Waiting} (idle : (d.queue s).running = none)
      (events : (d.queue s).events = [])
      (waiting : (d.queue s).waiting.items = w :: rest) :
      WorkStep s d (d.after s ((d.queue s).withWaiting rest) (w.start s d.hub))
  | tell {t : Ticket} {o : Outcome} {rest : List (Ticket × Outcome)} (rested : (d.queue s).Rested)
      (owing : d.owing = (t, o) :: rest) : WorkStep s d (d.tell t o rest)

theorem WorkStep.step (hs : WorkStep s d d') : Step i d d' := by
  cases hs with
  | take running events => exact step_take running events
  | clear idle events => exact .clear idle
  | start idle events waiting => exact .follow (.start idle waiting)
  | tell rested owing => exact .tell owing

/-- At most one step is due. -/
theorem WorkStep.unique (hs : WorkStep s d d₁) (hs' : WorkStep s d d₂) : d₁ = d₂ := by
  cases hs with
  | take running events =>
      cases hs' with
      | take running' events' =>
          cases running.symm.trans running'
          cases events.symm.trans events'
          rfl
      | clear idle _ => cases running.symm.trans idle
      | start idle _ _ => cases running.symm.trans idle
      | tell rested _ => cases events.symm.trans rested.1
  | clear idle events =>
      cases hs' with
      | take running _ => cases idle.symm.trans running
      | clear _ _ => rfl
      | start _ events' _ => exact absurd events' events
      | tell rested _ => exact absurd rested.1 events
  | start idle events waiting =>
      cases hs' with
      | take running _ => cases idle.symm.trans running
      | clear _ events' => exact absurd events events'
      | start _ _ waiting' =>
          cases waiting.symm.trans waiting'
          rfl
      | tell rested _ => cases waiting.symm.trans (rested.2 idle)
  | tell rested owing =>
      cases hs' with
      | take _ events => cases rested.1.symm.trans events
      | clear _ events => exact absurd rested.1 events
      | start idle _ waiting => cases (rested.2 idle).symm.trans waiting
      | tell _ owing' =>
          cases owing.symm.trans owing'
          rfl

/-- The desks a queue comes to when it works. -/
abbrev Works (s : Service) : Desk → Desk → Prop := ReflTransGen (WorkStep s)

/-- Whether the work of a queue is done. -/
def Done (s : Service) (d : Desk) : Prop := (d.queue s).Rested ∧ d.owing = []

theorem Done.not_step (hd : Done s d) : ¬WorkStep s d d' := by
  intro hs
  cases hs with
  | take running events => cases hd.1.1.symm.trans events
  | clear idle events => exact events hd.1.1
  | start idle events waiting => cases (hd.1.2 idle).symm.trans waiting
  | tell rested owing => cases hd.2.symm.trans owing

theorem Done.eq_of_works (hd : Done s d) (h : Works s d d') : d' = d := by
  rcases h.cases_head with heq | ⟨_, hstep, _⟩
  · exact heq.symm
  · exact absurd hstep hd.not_step

theorem Works.unique (h₁ : Works s d d₁) (h₂ : Works s d d₂) (hd₁ : Done s d₁)
    (hd₂ : Done s d₂) : d₁ = d₂ := by
  have hright : Relator.RightUnique (WorkStep s) := fun _ _ _ hs hs' => hs.unique hs'
  rcases ReflTransGen.total_of_right_unique hright h₁ h₂ with h | h
  · exact (hd₁.eq_of_works h).symm
  · exact hd₂.eq_of_works h

/-- Starting jobs until one stays under way. -/
theorem works_startNext (waiting : List Waiting) :
    ∀ d : Desk, (d.queue s).running = none → (d.queue s).events = [] → (d.queue s).waiting.items = waiting →
      Works s d
        { hub := (startNext s waiting d.hub).hub
          queue := update d.queue s
            (((d.queue s).withWaiting (startNext s waiting d.hub).waiting).withRunning
              (startNext s waiting d.hub).running)
          owing := d.owing ++ (startNext s waiting d.hub).ended.map (Ended.owed s)
          effects := d.effects ++ (startNext s waiting d.hub).effects
          asked := d.asked } := by
  induction waiting with
  | nil =>
      intro d hr he hw
      have hq : ((d.queue s).withWaiting []).withRunning none = d.queue s := by
        rw [← hr, ← hw]
        rfl
      simp only [startNext, hq, update_eq_self, List.map_nil, List.append_nil]
      exact .refl
  | cons w rest ih =>
      intro d hr he hw
      have hstep : WorkStep s d (d.after s ((d.queue s).withWaiting rest) (w.start s d.hub)) :=
        .start hr he hw
      cases hp : (w.start s d.hub).standing with
      | running r =>
          refine .single ?_
          simpa [startNext, hp, after, Standing.running?, Standing.owed] using hstep
      | ended x =>
          refine .head hstep ?_
          have hrest := ih (d.after s ((d.queue s).withWaiting rest) (w.start s d.hub))
            (by simp [after, hp, Standing.running?]) (by simpa [after] using he) (by simp [after])
          simpa [startNext, hp, after, Standing.running?, Standing.owed, List.append_assoc] using hrest

/-- The desk once every outcome is told. -/
def tellAll (d : Desk) : Desk :=
  { d with owing := [], effects := d.effects ++ d.owing.map fun x => .result x.1 x.2 }

theorem keeps_tellAll {P : Desk → Prop}
    (htell : ∀ d t o rest, d.owing = (t, o) :: rest → P d → P (d.tell t o rest)) (h : P d) : P d.tellAll := by
  obtain ⟨hub, queue, owing, effects, asked⟩ := d
  induction owing generalizing effects with
  | nil => simpa [tellAll] using h
  | cons x rest ih => simpa [tellAll, tell] using ih _ (htell _ x.1 x.2 rest rfl h)

theorem results_eq_map_owed (s : Service) (ended : List Ended) :
    JobQueue.results s ended = (ended.map (Ended.owed s)).map fun x => .result x.1 x.2 := by
  simp [JobQueue.results, Ended.owed]

def turned (d : Desk) (s : Service) (t : Turn) : Desk :=
  { d with hub := t.hub, queue := update d.queue s t.queue, effects := d.effects ++ t.effects }

theorem works_goOn (d : Desk) (ended : List Ended) (hr : (d.queue s).running = none)
    (ho : d.owing = ended.map (Ended.owed s)) :
    Works s d ({ d with owing := [] }.turned s ((d.queue s).goOn s d.hub [] ended)) := by
  have hclear : Works s d (d.put s ((d.queue s).withEvents [])) := by
    by_cases he : (d.queue s).events = []
    · rw [← he, JobQueue.withEvents_self, put_self]
    · exact .single (.clear hr he)
  have hstart := works_startNext (s := s) (d.queue s).waiting.items (d.put s ((d.queue s).withEvents []))
    (by simp [put, hr]) (by simp [put]) (by simp [put])
  have hrested := startNext_waiting s (d.queue s).waiting.items d.hub
  have htell := keeps_tellAll (P := fun d' => Works s d d' ∧ (d'.queue s).Rested)
    (fun _ _ _ _ howing h => ⟨h.1.tail (.tell h.2 howing), h.2⟩)
    ⟨hclear.trans hstart, by simp [put, JobQueue.withRunning, JobQueue.withWaiting, JobQueue.withEvents],
      by simpa [put] using hrested⟩
  simpa [put, tellAll, turned, JobQueue.goOn, ho, results_eq_map_owed, JobQueue.withRunning,
    JobQueue.withWaiting, JobQueue.withEvents] using htell.1

theorem keeps_works {P : Desk → Prop} (hstep : ∀ d d', P d → WorkStep s d d' → P d') (h : P d)
    (hworks : Works s d d') :
    P d' := by
  induction hworks with
  | refl => exact h
  | tail _ hlast ih => exact hstep _ _ ih hlast

/-- What the small steps of a queue keep, with a record of what the job under way takes in, its work keeps. -/
theorem keeps_work {P : Desk → List Taking → Prop}
    (hstep : ∀ d d' past, P d past → WorkStep s d d' → P d' past)
    (htake : ∀ d r e rest past, (d.queue s).running = some r → (d.queue s).events = e :: rest → P d past →
      P (d.after s ((d.queue s).withEvents rest) (r.take s d.hub e)) (past ++ r.heeds d.hub e))
    {d : Desk} (past : List Taking) (ho : d.owing = []) (h : P d past) :
    P (d.turned s ((d.queue s).work s d.hub)) (past ++ (d.queue s).takings s d.hub) := by
  cases hr : (d.queue s).running with
  | none =>
      have hgo := works_goOn d [] hr ho
      have hnone : past ++ (d.queue s).takings s d.hub = past := by simp [JobQueue.takings, hr]
      rw [← ho] at hgo
      rw [hnone]
      refine keeps_works (P := fun d => P d past) (fun _ _ => hstep _ _ past) h ?_
      simpa only [JobQueue.work, hr] using hgo
  | some r =>
      obtain ⟨left, hall, hleft⟩ := keeps_takeAll htake (d.queue s).events d r past hr rfl h
      have hheeds : (d.queue s).takings s d.hub = r.takings s (d.queue s).events d.hub := by
        simp [JobQueue.takings, hr]
      rw [hheeds]
      cases hp : (Running.takeAll s (d.queue s).events r d.hub).standing with
      | running r' =>
          rw [hleft r' hp] at hall
          simpa [JobQueue.work, hr, hp, after, turned, Standing.running?, Standing.owed, ho,
            JobQueue.withRunning, JobQueue.withEvents] using hall
      | ended x =>
          have hgo := works_goOn (s := s)
            (d.after s ((d.queue s).withEvents left) (Running.takeAll s (d.queue s).events r d.hub)) [x]
            (by simp [after, hp, Standing.running?]) (by simp [after, hp, Standing.owed, ho])
          refine keeps_works (P := fun d => P d _) (fun _ _ => hstep _ _ _) hall ?_
          simpa [JobQueue.work, JobQueue.goOn, hr, hp, after, turned, ho] using hgo

theorem works_work (d : Desk) (ho : d.owing = []) : Works s d (d.turned s ((d.queue s).work s d.hub)) :=
  keeps_work (P := fun d' _ => Works s d d') (fun _ _ _ hworks hs => hworks.tail hs)
    (fun _ _ _ _ _ hr he hworks => hworks.tail (.take hr he)) [] ho .refl

end Desk

namespace JobQueue

theorem rested_work (q : JobQueue) (s : Service) (h : Hub) : (q.work s h).queue.Rested := by
  cases hr : q.running with
  | none =>
      simp only [work, hr, goOn]
      exact ⟨rfl, startNext_waiting _ _ _⟩
  | some r =>
      simp only [work, hr]
      cases hp : (Running.takeAll s q.events r h).standing with
      | running r' =>
          refine ⟨rfl, fun hnone => ?_⟩
          cases hnone
      | ended x => exact ⟨rfl, startNext_waiting _ _ _⟩

end JobQueue

end GroundLink
