import GroundLink.Proofs.ListTraffic
import GroundLink.Proofs.Silence

/-! What becomes of a transfer whose peer falls silent. A look at everything brings one expiry of its timer
when that has run out (`Engine.timesUp_look`), and else nothing. So it tries as often as it still may, once
each time, and ends at the expiry after the last try (`Engine.silent_transfer_times_out`). -/

namespace GroundLink

open Function Deed

namespace Desk

variable {i : Input} {d D : Desk}

/-- A timer that has not run out is still armed after a pass over the timers. -/
theorem Fires.kept (hs : Sound d) (hfires : Fires d D) {x : Timer Ticket} (hx : x ∈ d.hub.timers.armed)
    (hlate : ¬x.deadline ≤ d.hub.clock) : x ∈ D.hub.timers.armed := by
  induction hfires with
  | refl => exact hx
  | @tail D _ hfires hlast ih =>
      cases hlast with
      | @fire y armed due =>
          refine Timers.mem_remove.mpr ⟨ih, fun hc => hlate ?_⟩
          have hclock : D.hub.clock = d.hub.clock := (Fires.around hfires).2.2.1
          rw [(hs.fires hfires).tended.eq_of_cookie ih armed hc, ← hclock]
          exact due

end Desk

section Work

variable {s : Service} {h : Hub} {r : Running} {x : Deed}

theorem timesUp_posted {deeds : List Deed} (n : Nat) (hposted : ∀ x ∈ deeds, ∃ event, x = .posted event) :
    timesUp n deeds = [] := by
  refine List.filterMap_eq_nil_iff.mpr fun x hx => ?_
  obtain ⟨event, rfl⟩ := hposted x hx
  rfl

namespace JobQueue

/-- The starts of other jobs behind the end of one bring no expiries. -/
theorem timesUp_deeds {q : JobQueue} (hr : q.running = some r) (n : Nat) :
    timesUp n (q.deeds s h) = timesUp n (r.deeds s q.events h) := by
  obtain ⟨late, heq, hlate⟩ := deeds_of_running (s := s) (h := h) hr
  rw [heq, timesUp_append, List.append_right_eq_self]
  refine List.filterMap_eq_nil_iff.mpr fun x hx => ?_
  obtain ⟨w, h', rfl⟩ := hlate x hx
  rfl

end JobQueue

end Work

namespace Engine

variable {e : Engine} {effects : List Effect} {asked : Service → List Task} {s : Service}
    {r : Running} {i : Input}

/-- A queue in which no job makes a step has the same job under way as before. -/
theorem running_of_quiet (e : Engine) (h : ∀ x ∈ e.deeds s i, x.actor? = none) :
    ((e.step i).engine.queue s).running = (e.queue s).running := by
  let P (d : Desk) (past : List Deed) : Prop :=
    (∀ x ∈ past, x.actor? = none) → (d.queue s).running = (e.queue s).running
  have hown : ∀ d d' deeds past, P d past → Desk.Act i s d deeds d' → P d' (past ++ deeds) := by
    intro d d' deeds past hP hact hall
    have hold := hP fun x hx => hall x (List.mem_append_left _ hx)
    rcases hact.plays_or_quiet with ⟨x, rfl, hplays⟩ | ⟨_, hrunning⟩
    · have hx := hall x (List.mem_append_right _ (List.mem_singleton_self x))
      cases hplays <;> cases hx
    · exact hrunning.trans hold
  have hother : ∀ t d d' deeds past, t ≠ s → P d past → Desk.Act i t d deeds d' → P d' past := by
    intro t d d' deeds past ht hP hact hall
    rw [(hact.aside ht).queue]
    exact hP hall
  have hnone : P ((e.desk [] fun _ => []).under i) [] := fun _ => rfl
  exact logs_step hown hother e [] (fun _ => []) hnone h

theorem clock_work (e : Engine) (s : Service) : (e.work s).engine.hub.clock = e.hub.clock :=
  Desk.keeps_of_reaches (i := .tick)
    (P := fun d => d.hub.clock = e.hub.clock) (fun _ _ h hs => hs.clock.trans h) rfl
    (e.reaches_work s [] fun _ => [])

theorem clock_atTurn (e : Engine) (s : Service) : (e.atTurn s).hub.clock = e.hub.clock := by
  have hfire : e.fireTimers.hub.clock = e.hub.clock :=
    (Desk.Fires.around (e.fires_fireTimers [] fun _ => [])).2.2.1
  obtain _ | ⟨_ | _⟩ := s
  · exact hfire
  · exact (clock_work _ _).trans hfire
  · exact (clock_work _ _).trans ((clock_work _ _).trans hfire)

/-- A look at everything does nothing to a queue for which no event is left after the pass over the timers. -/
theorem deeds_tick_of_nil (hr : (e.queue s).running = some r) (he : (e.fireTimers.queue s).events = []) :
    ∀ x ∈ e.deeds s .tick, ∃ event, x = .posted event := by
  have hrunning : (e.fireTimers.queue s).running = some r :=
    ((Desk.Fires.around (e.fires_fireTimers [] fun _ => [])).2.2.2 s).1.trans hr
  have hnone : ((e.atTurn s).queue s).deeds s (e.atTurn s).hub = [] := by
    rw [queue_atTurn, JobQueue.deeds, hrunning, he]
    rfl
  intro x hx
  rw [deeds, hnone, List.append_nil] at hx
  exact JobQueue.posted_of_mem_news hx

/-- A look at everything brings the job under way the expiry of its timer once, if that is all
there is for its queue. -/
theorem timesUp_tick_of_expiry (hr : (e.queue s).running = some r) {c : Cookie} (own : r.cookie = some c)
    (he : (e.fireTimers.queue s).events = [.expiry r.number c]) :
    timesUp r.number (e.deeds s .tick) = [e.hub.clock] := by
  have hrunning : (e.fireTimers.queue s).running = some r :=
    ((Desk.Fires.around (e.fires_fireTimers [] fun _ => [])).2.2.2 s).1.trans hr
  have hdeeds : r.deeds s [.expiry r.number c] (e.atTurn s).hub =
      [.heeded ⟨r, (e.atTurn s).hub, .expiry r.number c⟩] := by
    rw [Running.deeds, Running.deed, if_pos ⟨rfl, own⟩]
    cases (r.take s (e.atTurn s).hub (.expiry r.number c)).standing <;> rfl
  calc timesUp r.number (e.deeds s .tick)
    _ = timesUp r.number (((e.atTurn s).queue s).deeds s (e.atTurn s).hub) := by
        rw [deeds, timesUp_append, timesUp_posted _ fun x hx => JobQueue.posted_of_mem_news hx,
          List.nil_append]
    _ = timesUp r.number (r.deeds s [.expiry r.number c] (e.atTurn s).hub) := by
        rw [queue_atTurn, JobQueue.timesUp_deeds hrunning, he]
    _ = [(e.atTurn s).hub.clock] := by
        rw [hdeeds]
        exact timesUp_heeded r _ c []
    _ = [e.hub.clock] := by rw [clock_atTurn]

section Runs

variable (config : Config) (link : Link) (clock : Instant) {inputs more : List Input}

/-- A transfer is left to itself when it hears nothing that it listens to, is not called off and has none of
its messages refused. -/
theorem neglects_log {side : Side} {j : Running}
    (hj : (((idle config link clock).run inputs).engine.queue (.mission side)).running = some j)
    (hsilent : ∀ header m, .receive header m ∈ more → j.activity.task.shuns header.sender m = true)
    (hkept : .cancel side j.number ∉ more)
    (htaken : ∀ m,
      .refused (j.ticket (.mission side)) m ∉
        (((idle config link clock).run inputs).engine.run more).effects) :
    ∀ x ∈ ((idle config link clock).run inputs).engine.log (.mission side) more,
      x.Neglects (j.ticket (.mission side)) := by
  intro x hx
  obtain ⟨past, rest, hlog⟩ := List.append_of_mem hx
  obtain ⟨before, i, after, left, right, hmore, _, hdeeds⟩ := log_split more hlog
  have hmem : x ∈ (((idle config link clock).run inputs).engine.run before).engine.deeds (.mission side) i :=
    hdeeds ▸ List.mem_append_right _ List.mem_cons_self
  have hi : i ∈ more := hmore ▸ List.mem_append_right _ List.mem_cons_self
  refine ⟨fun header m hpost => ?_, fun r h hcancelled hn => ?_, fun m hrefused => ?_⟩
  · subst hpost
    obtain rfl := received_of_posted _ hmem
    have hrun : ((idle config link clock).run (inputs ++ before)).engine =
        (((idle config link clock).run inputs).engine.run before).engine := by
      rw [run_append, Reaction.next]
    rw [← hrun, deeds_receive] at hmem
    obtain ⟨event, hhears, heq⟩ := List.mem_map.mp hmem
    obtain ⟨r, hr, hhears⟩ := List.mem_flatMap.mp hhears
    obtain ⟨rfl, hheard⟩ := Running.shuns_of_mem_hears hhears
    have hn : r.number = j.number := by simpa [Running.ticket] using heq
    have htask := task_of_running config link clock before hj
    have htask' := task_of_running config link clock [] (Option.mem_toList.mp hr)
    rw [List.append_nil, hn, htask, Option.some.injEq] at htask'
    rw [← htask', hsilent header m hi] at hheard
    cases hheard
  · subst hcancelled
    obtain ⟨side', r', hside, heq, rfl⟩ := cancel_of_isCancelled _ hmem rfl
    cases hside
    cases heq
    rw [show r.number = j.number from hn] at hi
    exact hkept hi
  · refine htaken m ?_
    have hseen : .refused (j.ticket (.mission side)) m ∈
        (((idle config link clock).run inputs).engine.run more).effects.filter
          (Effect.isOf (.mission side)) := by
      rw [seen_run_more]
      exact List.mem_flatMap.mpr ⟨x, hx, hrefused⟩
    exact (List.mem_filter.mp hseen).1

theorem dwindles_run {l : Lull} {j : Running}
    (hwaits : Desk.Waits l j ((idle config link clock).deskAfter inputs) [])
    (hpolicy : (idle config link clock).hub.policy l.service = l.policy) {t : Transfer}
    (ht : l.activity.task = .transfer t)
    (hneglects : ∀ x ∈ ((idle config link clock).run inputs).engine.log l.service more, x.Neglects l.ticket) :
    Desk.Dwindles l ((idle config link clock).deskAfter (inputs ++ more))
      ((idle config link clock).log l.service inputs)
      (((idle config link clock).run inputs).engine.log l.service more) := by
  have hstart : ((idle config link clock).deskAfter inputs).hub.policy l.service = l.policy :=
    (congrArg (· l.service) (kin_run config link clock inputs).1).trans hpolicy
  have hlogged := keeps_log_more config link clock (s := l.service)
    (P := fun d past => d.hub.policy l.service = l.policy ∧ ((∀ x ∈ past, x.Neglects l.ticket) →
      Desk.Dwindles l d ((idle config link clock).log l.service inputs) past))
    (fun i d past h => ⟨h.1, fun hall => (h.2 hall).keep rfl rfl⟩)
    (fun i d d' deeds past hs hf h hact => by
      refine ⟨(congrArg (· l.service) hact.step.kin.1).trans h.1, fun hall => ?_⟩
      have hold := h.2 fun x hx => hall x (List.mem_append_left _ hx)
      exact hold.act hs hf h.1 ht hact fun x hx => hall x (List.mem_append_right _ hx))
    (fun i u d d' deeds past hu hs h hact => ⟨(congrArg (· l.service) hact.step.kin.1).trans h.1,
      fun hall => (h.2 hall).keep (hact.aside hu).queue (hact.alarms_other hs hu)⟩)
    ⟨hstart, fun _ => .waits hwaits⟩ more
  exact hlogged.2 hneglects

end Runs

/-- When the timers of a job go off that are armed. -/
def deadlines (e : Engine) (t : Ticket) : List Instant :=
  (e.hub.timers.armed.filter (·.tag = t)).map (·.deadline)

theorem deadlines_of_alarms {t : Ticket} {span : Span} {deadline : Instant}
    (h : e.hub.timers.alarms t.service = [(deadline, span, t)]) : e.deadlines t = [deadline] := by
  obtain ⟨x, hx, hkey⟩ := List.map_eq_singleton_iff.mp h
  obtain ⟨rfl, htag⟩ := Prod.mk.inj hkey
  obtain ⟨_, rfl⟩ := Prod.mk.inj htag
  have hsame : e.hub.timers.armed.filter (·.tag = x.tag) =
      (e.hub.timers.armed.filter (·.tag.service = x.tag.service)).filter (·.tag = x.tag) := by
    rw [List.filter_filter]
    refine List.filter_congr fun y _ => ?_
    by_cases hy : y.tag = x.tag <;> simp [hy]
  rw [deadlines, hsame, hx]
  simp

theorem deadlines_of_alarms_nil {t : Ticket} (h : e.hub.timers.alarms t.service = []) :
    e.deadlines t = [] := by
  refine List.map_eq_nil_iff.mpr (List.filter_eq_nil_iff.mpr fun x hx htag => ?_)
  have hmem : (x.deadline, x.span, x.tag) ∈ e.hub.timers.alarms t.service :=
    Timers.mem_alarms_iff.mpr ⟨x, hx, congrArg Ticket.service (of_decide_eq_true htag), rfl⟩
  rw [h] at hmem
  cases hmem

/-- The timer of a transfer that waits is armed for when it is due, or its expiry is left. -/
theorem deadlines_of_waits {l : Lull} {past : List Deed} (h : Desk.Waits l r (e.desk effects asked) past) :
    e.deadlines l.ticket = [l.due (timesUp l.number past)] ∨
      e.deadlines l.ticket = [] ∧ ∃ c, r.cookie = some c ∧
        (e.queue l.service).events = [.expiry r.number c] := by
  cases h.alarmed with
  | armed events alarms =>
      rw [Running.ticket, h.number] at alarms
      exact .inl (deadlines_of_alarms alarms)
  | fired own events alarms => exact .inr ⟨deadlines_of_alarms_nil alarms, _, own, events⟩

section Runs

variable (config : Config) (link : Link) (clock : Instant) {inputs more : List Input} (t : Ticket)

/-- What is seen of a job before its end is what its steps show. -/
theorem shownOf_run :
    (((idle config link clock).run inputs).engine.run more).effects.filter
      (fun x => x.job = t && !x.isResult) =
      shownOf t (((idle config link clock).run inputs).engine.log t.service more) := by
  rw [shownOf, ← seen_run_more, List.filter_filter]
  refine List.filter_congr fun x _ => ?_
  by_cases hx : x.job = t <;> simp [Effect.isOf, hx]

theorem endsOf_run (o : Outcome) :
    .result t o ∈ (((idle config link clock).run inputs).engine.run more).effects ↔
      o ∈ endsOf t (((idle config link clock).run inputs).engine.log t.service more) := by
  rw [endsOf, ← endings_run_more, Reaction.endings]
  constructor
  · intro h
    refine List.mem_map.mpr ⟨⟨t.number, o⟩, List.mem_filter.mpr ⟨?_, decide_eq_true rfl⟩, rfl⟩
    exact List.mem_filterMap.mpr ⟨_, h, if_pos rfl⟩
  · intro h
    obtain ⟨⟨n, o'⟩, hx, rfl⟩ := List.mem_map.mp h
    obtain ⟨hx, hn⟩ := List.mem_filter.mp hx
    obtain ⟨e, he, hended⟩ := List.mem_filterMap.mp hx
    obtain rfl : n = t.number := of_decide_eq_true hn
    rwa [Effect.eq_result_of_ended? hended] at he

end Runs

/-- How it goes on with a transfer that nobody answers any more. -/
structure Lapses (e : Engine) (l : Lull) (more : List Input) : Prop where
  /-- Its time is up once more than it may still try, and not more often. -/
  le : (timesUp l.number (e.log l.service more)).length ≤ l.left + 1
  /-- Each time but the last what is to be answered is said again, and nothing else is. -/
  sends : (e.run more).effects.filter (fun x => x.job = l.ticket && !x.isResult) =
    l.asking (min (timesUp l.number (e.log l.service more)).length l.left)
  /-- It ends when its time is up with no try left. -/
  ends : ∀ o, .result l.ticket o ∈ (e.run more).effects ↔
    (timesUp l.number (e.log l.service more)).length = l.left + 1 ∧ o = .failed .timeout
  /-- Until then it is under way with one try more each time, and its timer is armed or has gone off since. -/
  waits : (timesUp l.number (e.log l.service more)).length ≤ l.left →
    ∃ r, ((e.run more).engine.queue l.service).running = some r ∧ r.number = l.number ∧
      r.activity = Activity.again^[(timesUp l.number (e.log l.service more)).length] l.activity ∧
        ((e.run more).engine.deadlines l.ticket = [l.due (timesUp l.number (e.log l.service more))] ∨
          (e.run more).engine.deadlines l.ticket = [] ∧
            ∃ c, r.cookie = some c ∧ ((e.run more).engine.queue l.service).events = [.expiry r.number c])
  /-- A look at everything when its timer has run out brings one expiry, and a new
  timer if it may try again. -/
  looks : ∀ before, more = before ++ [.tick] → (timesUp l.number (e.log l.service before)).length ≤ l.left →
    (∀ x ∈ (e.run before).engine.deadlines l.ticket, x ≤ (e.run before).engine.hub.clock) →
      timesUp l.number (e.log l.service more) =
          timesUp l.number (e.log l.service before) ++ [(e.run before).engine.hub.clock] ∧
        ((timesUp l.number (e.log l.service before)).length < l.left →
          (e.run more).engine.deadlines l.ticket = [(e.run before).engine.hub.clock.after l.policy.timeout])
  /-- A look at everything before that does nothing to it. -/
  rests : ∀ before, more = before ++ [.tick] → (timesUp l.number (e.log l.service before)).length ≤ l.left →
    (∃ x ∈ (e.run before).engine.deadlines l.ticket, (e.run before).engine.hub.clock < x) →
      timesUp l.number (e.log l.service more) = timesUp l.number (e.log l.service before) ∧
        ((e.run more).engine.queue l.service).running = ((e.run before).engine.queue l.service).running ∧
          (e.run more).engine.deadlines l.ticket = (e.run before).engine.deadlines l.ticket ∧
            ∀ x ∈ (e.run before).engine.tick.effects, x.job ≠ l.ticket

section Silent

variable (config : Config) (link : Link) (clock : Instant) {inputs : List Input} {l : Lull} {j : Running}
    {t : Transfer}
  (hwaits : Desk.Waits l j ((idle config link clock).deskAfter inputs) [])
  (hpolicy : (idle config link clock).hub.policy l.service = l.policy) (ht : l.activity.task = .transfer t)

include hwaits hpolicy ht

section Tick

variable {before : List Input}
  (hneglects : ∀ x ∈ ((idle config link clock).run inputs).engine.log l.service (before ++ [.tick]),
    x.Neglects l.ticket)
  (hle : (timesUp l.number (((idle config link clock).run inputs).engine.log l.service before)).length ≤
    l.left)

include hneglects hle

/-- Once the timers have gone off in a look at everything, that of the transfer is armed
or its expiry is left. -/
theorem alarmed_fireTimers :
    let e := ((idle config link clock).run inputs).engine
    ∃ r, ((e.run before).engine.queue l.service).running = some r ∧ r.number = l.number ∧
      Desk.Alarmed l.service r (l.due (timesUp l.number (e.log l.service before)))
        ((e.run before).engine.fireTimers.desk [] fun _ => []) := by
  intro e
  have hlog : e.log l.service (before ++ [.fireTimers]) = e.log l.service before ++
      ((e.run before).engine.queue l.service).news ((e.run before).engine.fireTimers.queue l.service) := by
    rw [log_append, log, log, List.append_nil, deeds]
  have hup : timesUp l.number (e.log l.service (before ++ [.fireTimers])) =
      timesUp l.number (e.log l.service before) := by
    rw [hlog, timesUp_append, timesUp_posted _ fun x hx => JobQueue.posted_of_mem_news hx, List.append_nil]
  have hneglects' : ∀ x ∈ e.log l.service (before ++ [.fireTimers]), x.Neglects l.ticket := by
    intro x hx
    refine hneglects x ?_
    rw [log_append, log, log, List.append_nil]
    rw [hlog] at hx
    exact (List.mem_append.mp hx).elim (List.mem_append_left _)
      fun hx => List.mem_append_right _ (List.mem_append_left _ hx)
  have hrun : (e.run (before ++ [.fireTimers])).engine = (e.run before).engine.fireTimers := by
    rw [run_append]
    rfl
  have hdwindles := dwindles_run config link clock hwaits hpolicy ht hneglects'
  rw [deskAfter_append] at hdwindles
  cases hdwindles with
  | givenUp up concluded sends ends => exact absurd (hup ▸ up) (Nat.ne_of_lt (Nat.lt_succ_of_le hle))
  | @waits r h =>
      have hrunning : ((e.run (before ++ [.fireTimers])).engine.queue l.service).running = some r := h.running
      have halarmed : Desk.Alarmed l.service r _
          ((e.run (before ++ [.fireTimers])).engine.desk [] fun _ => []) :=
        h.alarmed.keep rfl rfl
      rw [hrun] at hrunning halarmed
      rw [hup] at halarmed
      have hfires := (e.run before).engine.fires_fireTimers [] fun _ => []
      exact ⟨r, ((Desk.Fires.around hfires).2.2.2 l.service).1.symm.trans hrunning, h.number, halarmed⟩

/-- The time of the transfer is up in a look at everything when its timer has run out. -/
theorem timesUp_look :
    let e := ((idle config link clock).run inputs).engine
    (∀ x ∈ (e.run before).engine.deadlines l.ticket, x ≤ (e.run before).engine.hub.clock) →
      timesUp l.number (e.log l.service (before ++ [.tick])) =
        timesUp l.number (e.log l.service before) ++ [(e.run before).engine.hub.clock] := by
  intro e hdue
  obtain ⟨r, hr, hn, halarmed⟩ := alarmed_fireTimers config link clock hwaits hpolicy ht hneglects hle
  have hs := sound_run config link clock (inputs ++ before)
  rw [deskAfter_append] at hs
  cases halarmed with
  | armed events alarms =>
      have hmem : _ ∈ (e.run before).engine.fireTimers.hub.timers.alarms l.service :=
        alarms ▸ List.mem_singleton_self _
      obtain ⟨x, hx, hservice, hkey⟩ := Timers.mem_alarms_iff.mp hmem
      have htag : x.tag = l.ticket := by
        rw [(Prod.mk.inj (Prod.mk.inj hkey).2).2, Running.ticket, hn]
      have harmed : x ∈ (e.run before).engine.hub.timers.armed :=
        (Desk.Fires.around ((e.run before).engine.fires_fireTimers [] fun _ => [])).2.1 hx
      have hclock : (e.run before).engine.fireTimers.hub.clock = (e.run before).engine.hub.clock :=
        (Desk.Fires.around ((e.run before).engine.fires_fireTimers [] fun _ => [])).2.2.1
      refine absurd ?_ (fireTimers_late _ hs x hx)
      rw [hclock]
      exact hdue _ (List.mem_map_of_mem (List.mem_filter.mpr ⟨harmed, decide_eq_true htag⟩))
  | fired own events alarms =>
      rw [log_append, timesUp_append, log, log, List.append_nil, ← hn, timesUp_tick_of_expiry hr own events]

/-- Nothing but events left for its queue comes of a look at everything before the timer has run out. -/
theorem posted_look :
    let e := ((idle config link clock).run inputs).engine
    (∃ x ∈ (e.run before).engine.deadlines l.ticket, (e.run before).engine.hub.clock < x) →
      ∀ x ∈ (e.run before).engine.deeds l.service .tick, ∃ event, x = .posted event := by
  rintro e ⟨_, hlate, hclock⟩
  obtain ⟨x, hx, rfl⟩ := List.mem_map.mp hlate
  obtain ⟨harmed, htag⟩ := List.mem_filter.mp hx
  obtain ⟨r, hr, hn, halarmed⟩ := alarmed_fireTimers config link clock hwaits hpolicy ht hneglects hle
  have hs := sound_run config link clock (inputs ++ before)
  rw [deskAfter_append] at hs
  cases halarmed with
  | armed events alarms => exact deeds_tick_of_nil hr events
  | fired own events alarms =>
      have hkept : x ∈ (e.run before).engine.fireTimers.hub.timers.armed :=
        Desk.Fires.kept hs ((e.run before).engine.fires_fireTimers _ _) harmed (UInt64.not_le.mpr hclock)
      have hmem : (x.deadline, x.span, x.tag) ∈
          (e.run before).engine.fireTimers.hub.timers.alarms l.service :=
        Timers.mem_alarms_iff.mpr ⟨x, hkept, congrArg Ticket.service (of_decide_eq_true htag), rfl⟩
      have hnone : (e.run before).engine.fireTimers.hub.timers.alarms l.service = [] := alarms
      rw [hnone] at hmem
      cases hmem

end Tick

section More

variable {more : List Input}
  (hneglects : ∀ x ∈ ((idle config link clock).run inputs).engine.log l.service more, x.Neglects l.ticket)

include hneglects

theorem waits_more :
    let e := ((idle config link clock).run inputs).engine
    (timesUp l.number (e.log l.service more)).length ≤ l.left →
      ∃ r, Desk.Waits l r ((e.run more).engine.desk [] fun _ => []) (e.log l.service more) := by
  intro e hle
  have hdwindles := dwindles_run config link clock hwaits hpolicy ht hneglects
  rw [deskAfter_append] at hdwindles
  cases hdwindles with
  | @waits r h => exact ⟨r, h.running, h.number, h.le, h.activity, h.alarmed.keep rfl rfl, h.sends, h.ends⟩
  | givenUp up concluded sends ends => exact absurd up (Nat.ne_of_lt (Nat.lt_succ_of_le hle))

theorem sends_more :
    let e := ((idle config link clock).run inputs).engine
    (e.run more).effects.filter (fun x => x.job = l.ticket && !x.isResult) =
      l.asking (min (timesUp l.number (e.log l.service more)).length l.left) := by
  intro e
  rw [shownOf_run]
  cases dwindles_run config link clock hwaits hpolicy ht hneglects with
  | waits h => rw [h.sends, Nat.min_eq_left h.le]
  | givenUp up concluded sends ends => rw [sends, up, Nat.min_eq_right (Nat.le_succ _)]

theorem ends_more (o : Outcome) :
    let e := ((idle config link clock).run inputs).engine
    .result l.ticket o ∈ (e.run more).effects ↔
      (timesUp l.number (e.log l.service more)).length = l.left + 1 ∧ o = .failed .timeout := by
  intro e
  rw [endsOf_run]
  cases dwindles_run config link clock hwaits hpolicy ht hneglects with
  | waits h =>
      rw [h.ends]
      exact ⟨fun ho => absurd ho List.not_mem_nil,
        fun ho => absurd ho.1 (Nat.ne_of_lt (Nat.lt_succ_of_le h.le))⟩
  | givenUp up concluded sends ends => rw [ends, List.mem_singleton, and_iff_right up]

/-- After a look at everything the timer of a transfer that still waits is armed. -/
theorem deadlines_look {before : List Input} (hmore : more = before ++ [.tick]) :
    let e := ((idle config link clock).run inputs).engine
    (timesUp l.number (e.log l.service more)).length ≤ l.left →
      (e.run more).engine.deadlines l.ticket = [l.due (timesUp l.number (e.log l.service more))] := by
  intro e hle
  obtain ⟨r, h⟩ := waits_more config link clock hwaits hpolicy ht hneglects hle
  refine (deadlines_of_waits h).resolve_right ?_
  rintro ⟨-, c, -, hevents⟩
  have hrun : (e.run more).engine = (e.run before).engine.tick.engine := by
    rw [hmore, run_tick]
    rfl
  rw [hrun, ((e.run before).engine.rested_tick l.service).1] at hevents
  cases hevents

end More

/-- A look at everything before the timer has run out does nothing to the transfer. -/
theorem rests_look {before : List Input}
    (hneglects : ∀ x ∈ ((idle config link clock).run inputs).engine.log l.service (before ++ [.tick]),
      x.Neglects l.ticket) :
    let e := ((idle config link clock).run inputs).engine
    (timesUp l.number (e.log l.service before)).length ≤ l.left →
    (∃ x ∈ (e.run before).engine.deadlines l.ticket, (e.run before).engine.hub.clock < x) →
      timesUp l.number (e.log l.service (before ++ [.tick])) = timesUp l.number (e.log l.service before) ∧
        ((e.run (before ++ [.tick])).engine.queue l.service).running =
          ((e.run before).engine.queue l.service).running ∧
          (e.run (before ++ [.tick])).engine.deadlines l.ticket = (e.run before).engine.deadlines l.ticket ∧
            ∀ x ∈ (e.run before).engine.tick.effects, x.job ≠ l.ticket := by
  intro e hle hlate
  have hposted := posted_look config link clock hwaits hpolicy ht hneglects hle hlate
  have hbefore : ∀ x ∈ e.log l.service before, x.Neglects l.ticket := by
    intro x hx
    refine hneglects x ?_
    rw [log_append]
    exact List.mem_append_left _ hx
  have hup : timesUp l.number (e.log l.service (before ++ [.tick])) =
      timesUp l.number (e.log l.service before) := by
    rw [log_append, log, log, List.append_nil, timesUp_append, timesUp_posted _ hposted, List.append_nil]
  have hrun : e.run (before ++ [.tick]) = (e.run before).next tick := run_tick e before
  refine ⟨hup, ?_, ?_, fun x hx hjob => ?_⟩
  · rw [hrun]
    refine running_of_quiet (e.run before).engine (i := .tick) fun x hx => ?_
    obtain ⟨event, rfl⟩ := hposted x hx
    rfl
  · rw [deadlines_look config link clock hwaits hpolicy ht hneglects rfl (hup ▸ hle), hup]
    obtain ⟨r, h⟩ := waits_more config link clock hwaits hpolicy ht hbefore hle
    refine ((deadlines_of_waits h).resolve_right ?_).symm
    rintro ⟨hnone, -⟩
    obtain ⟨x, hx, -⟩ := hlate
    rw [hnone] at hx
    cases hx
  · have hold : (e.run before).effects.filter (fun x => x.job = l.ticket && !x.isResult) = _ :=
      sends_more config link clock hwaits hpolicy ht hbefore
    have hsends : (e.run (before ++ [.tick])).effects.filter (fun x => x.job = l.ticket && !x.isResult) =
        l.asking (min (timesUp l.number (e.log l.service (before ++ [.tick]))).length l.left) :=
      sends_more config link clock hwaits hpolicy ht hneglects
    rw [hup, hrun, Reaction.next, List.filter_append, hold, List.append_right_eq_self] at hsends
    cases hresult : x.isResult with
    | false =>
        have hmem : x ∈ (e.run before).engine.tick.effects.filter
            (fun x => x.job = l.ticket && !x.isResult) :=
          List.mem_filter.mpr ⟨hx, by simp [hjob, hresult]⟩
        rw [hsends] at hmem
        cases hmem
    | true =>
        cases x with
        | result t o =>
            obtain rfl : t = l.ticket := hjob
            have hmem : .result l.ticket o ∈ (e.run (before ++ [.tick])).effects := by
              rw [hrun]
              exact List.mem_append_right _ hx
            have hends := ((ends_more config link clock hwaits hpolicy ht hneglects o).mp hmem).1
            rw [hup] at hends
            exact Nat.ne_of_lt (Nat.lt_succ_of_le hle) hends
        | _ => cases hresult

theorem lapses_run {more : List Input}
    (hneglects : ∀ x ∈ ((idle config link clock).run inputs).engine.log l.service more, x.Neglects l.ticket) :
    ((idle config link clock).run inputs).engine.Lapses l more := by
  refine ⟨?_, sends_more config link clock hwaits hpolicy ht hneglects,
    ends_more config link clock hwaits hpolicy ht hneglects, fun hle => ?_, ?_, ?_⟩
  · cases dwindles_run config link clock hwaits hpolicy ht hneglects with
    | waits h => exact Nat.le_succ_of_le h.le
    | givenUp up concluded sends ends => exact up.le
  · obtain ⟨r, h⟩ := waits_more config link clock hwaits hpolicy ht hneglects hle
    exact ⟨r, h.running, h.number, h.activity, deadlines_of_waits h⟩
  · rintro before rfl hle hdue
    have hup := timesUp_look config link clock hwaits hpolicy ht hneglects hle hdue
    refine ⟨hup, fun hleft => ?_⟩
    rw [deadlines_look config link clock hwaits hpolicy ht hneglects rfl ?_, hup, Lull.due_concat]
    rw [hup, List.length_append, List.length_singleton]
    exact hleft
  · rintro before rfl hle hlate
    exact rests_look config link clock hwaits hpolicy ht hneglects hle hlate

end Silent

/-- After every look at everything the timer of the transfer under way is armed. If its peer falls silent
then, the transfer is not called off and the link takes what it sends, it lapses: each look at everything when
the timer has run out brings one expiry and no other brings any. Each says once more what is to be answered,
as often as the transfer may still try, and the next ends it. -/
theorem silent_transfer_times_out (config : Config) (link : Link) (clock : Instant)
    (inputs : List Input) (side : Side) {j : Running}
    (hj : (((idle config link clock).run (inputs ++ [.tick])).engine.queue (.mission side)).running =
      some j) :
    let e := ((idle config link clock).run (inputs ++ [.tick])).engine
    ∃ deadline, e.deadlines (j.ticket (.mission side)) = [deadline] ∧
      ∀ more, (∀ header m, .receive header m ∈ more → j.activity.task.shuns header.sender m = true) →
        .cancel side j.number ∉ more → (∀ m, .refused (j.ticket (.mission side)) m ∉ (e.run more).effects) →
          e.Lapses ⟨side, j.number, j.activity, ⟨config.timeoutSpan, config.missionRetries.toNat⟩,
            deadline⟩ more := by
  intro e
  have hs := sound_run config link clock (inputs ++ [.tick])
  have hrested : (e.queue (.mission side)).events = [] := by
    have hrun : e = ((idle config link clock).run inputs).engine.tick.engine :=
      (congrArg Reaction.engine (run_tick (idle config link clock) inputs)).trans rfl
    rw [hrun]
    exact (rested_tick _ _).1
  obtain ⟨x, hx, htag, _⟩ := hs.tended.filter_running hj hrested
  have halarms : e.hub.timers.alarms (.mission side) = [(x.deadline, x.span, j.ticket (.mission side))] := by
    have hfilter : e.hub.timers.armed.filter (·.tag.service = .mission side) = [x] := hx
    rw [Timers.alarms, hfilter, List.map_singleton, htag]
  obtain ⟨t, ht⟩ := transfer_submitted (hs.lined.asked (JobQueue.slot_mem_line hj))
  refine ⟨x.deadline, deadlines_of_alarms halarms, fun more hsilent hkept htaken => ?_⟩
  have hwaits : Desk.Waits
      ⟨side, j.number, j.activity, ⟨config.timeoutSpan, config.missionRetries.toNat⟩, x.deadline⟩ j
      ((idle config link clock).deskAfter (inputs ++ [.tick])) [] :=
    ⟨hj, rfl, Nat.zero_le _, rfl, .armed hrested halarms, rfl, rfl⟩
  exact lapses_run config link clock hwaits rfl ht (neglects_log config link clock hj hsilent hkept htaken)

/-- A download that has asked twice for its first item asks three times more, while a count
from elsewhere goes by. -/
theorem silent_transfer_times_out_download :
    let inputs : List Input :=
      [.transfer .client (.download ⟨⟨.pilotOf 1, .mission⟩, false⟩) .queue, .tick,
        .receive ⟨.pilotOf 1, 0⟩ (.missionCount ⟨2, .pilotOf 255, .mission⟩), .tick, .advance 600000]
    let more : List Input :=
      .receive ⟨.pilotOf 2, 0⟩ (.missionCount ⟨5, .pilotOf 255, .mission⟩) ::
        (List.replicate 4 [.advance 300000, .tick, .advance 200000, .tick]).flatten
    let e := ((idle .default default 0).run (inputs ++ [.tick])).engine
    (e.queue (.mission .client)).running.map (fun j => (j.number, j.activity.task, j.activity.tries)) =
        some (0, .transfer (.download ⟨⟨.pilotOf 1, .mission⟩, false⟩), 2) ∧
      timesUp 0 (e.log (.mission .client) more) = [1100000, 1600000, 2100000, 2600000] ∧
        .result ⟨.mission .client, 0⟩ (.failed .timeout) ∈ (e.run more).effects := by
  intro inputs more e
  have hrunning : (e.queue (.mission .client)).running.map
      (fun j => (j.number, j.activity.task, j.activity.tries)) =
      some (0, .transfer (.download ⟨⟨.pilotOf 1, .mission⟩, false⟩), 2) := by decide +kernel
  have htimes : timesUp 0 (e.log (.mission .client) more) = [1100000, 1600000, 2100000, 2600000] := by
    decide +kernel
  have htaken : ∀ m, .refused ⟨.mission .client, 0⟩ m ∉ (e.run more).effects := by
    have hnone : (e.run more).effects.all (fun x => x.isSent || x.isResult) = true := by decide +kernel
    intro m hmem
    have hrefused := List.all_eq_true.mp hnone _ hmem
    cases hrefused
  obtain ⟨j, hj, hkey⟩ := Option.map_eq_some_iff.mp hrunning
  obtain ⟨hn, hkey⟩ := Prod.mk.inj hkey
  obtain ⟨htask, htries⟩ := Prod.mk.inj hkey
  have hsilent : ∀ header m, .receive header m ∈ more → j.activity.task.shuns header.sender m = true := by
    intro header m hmem
    simp only [more, List.replicate, List.flatten_cons, List.flatten_nil, List.cons_append, List.nil_append,
      List.mem_cons, List.not_mem_nil, reduceCtorEq, Input.receive.injEq, or_false] at hmem
    obtain ⟨rfl, rfl⟩ := hmem
    rw [htask]
    decide
  obtain ⟨deadline, -, hall⟩ := silent_transfer_times_out .default default 0 inputs .client hj
  rw [Running.ticket, hn] at hall
  have hlapses := hall more hsilent (by simp [more, List.replicate]) htaken
  have hleft : Config.default.missionRetries.toNat - j.activity.tries = 3 := by
    rw [htries]
    rfl
  refine ⟨hrunning, htimes, (hlapses.ends _).mpr ⟨?_, rfl⟩⟩
  show (timesUp 0 (e.log (.mission .client) more)).length =
      Config.default.missionRetries.toNat - j.activity.tries + 1
  rw [htimes, hleft]
  rfl

end Engine

end GroundLink
