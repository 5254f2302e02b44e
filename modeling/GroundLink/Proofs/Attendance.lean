import Mathlib.Algebra.Order.Ring.Nat
import GroundLink.Proofs.Alarm
import GroundLink.Proofs.Completion
import GroundLink.Proofs.Subscription

/-! After a look at everything no queue hangs and nothing is left over. Every queue that is not empty has
its first job under way, with a timer armed, and what is armed and registered is for the jobs under way
only. Most of it holds at every moment (`Desk.Sound`); a queue that has worked has moreover heard of
everything that happened, so that its job waits for a timer that is still armed. -/

namespace GroundLink

open Function

namespace Desk

variable {i : Input} {d d' : Desk} {s : Service} {q : JobQueue} {r : Running} {h : Hub} {move : Move Activity}

/-- What has been seen of the jobs. -/
structure Shown (d : Desk) : Prop where
  /-- A job under way has sent something. -/
  started : ∀ s r, (d.queue s).running = some r → ∃ m, .sent (r.ticket s) m ∈ d.effects
  /-- Nothing is seen of jobs that were not submitted. -/
  known : ∀ e ∈ d.effects, e.job.number < (d.queue e.job.service).submitted
  /-- Nothing is seen of jobs that wait. -/
  unseen : ∀ e ∈ d.effects, ∀ w ∈ (d.queue e.job.service).waiting.items, w.number ≠ e.job.number

theorem Due.sent_or_opens (hs : Shown d) (due : Due d s q r h move) :
    (∃ m, .sent (r.ticket s) m ∈ d.effects) ∨ move.Opens := by
  cases due with
  | hear running events concerns => exact .inl (hs.started s r running)
  | @expire r cookie rest running events own => exact .inl (hs.started s r running)
  | start idle waiting => exact .inr (Task.start_opens _ _)
  | cancel running => exact .inr trivial

theorem Due.waiting_subset (due : Due d s q r h move) : q.waiting.items ⊆ (d.queue s).waiting.items := by
  cases due with
  | start idle waiting =>
      rw [waiting]
      exact List.subset_cons_self _ _
  | _ => exact List.Subset.refl _

end Desk

theorem Running.Follows.sent {r r' : Running} {s : Service} {h : Hub} {move : Move Activity} {p : Progress}
    (hf : r.Follows s h move p) (hm : move.Opens) (hr : p.standing = .running r') :
    ∃ m, .sent (r.ticket s) m ∈ p.effects := by
  cases hf with
  | ignored => exact hm.elim
  | waited wait report message activity taken =>
      cases message with
      | none => cases wait <;> exact hm.elim
      | some m => exact ⟨m, List.mem_append_right _ (List.mem_singleton_self _)⟩
  | broken wait report m activity refused => cases hr
  | finished message report outcome taken => cases hr
  | failed m report outcome refused => cases hr

namespace Desk

variable {i : Input} {d d' : Desk} {s : Service} {q : JobQueue} {r : Running} {h : Hub} {move : Move Activity}

namespace Shown

theorem of_le (hs : Shown d) (heffects : d'.effects = d.effects)
    (hrunning : ∀ t r, (d'.queue t).running = some r → (d.queue t).running = some r)
    (hsubmitted : ∀ t, (d.queue t).submitted ≤ (d'.queue t).submitted)
    (hwaiting : ∀ t, (d'.queue t).waiting.items ⊆ (d.queue t).waiting.items) : Shown d' where
  started t r hr := by
    rw [heffects]
    exact hs.started t r (hrunning t r hr)
  known e he := by
    rw [heffects] at he
    exact Nat.lt_of_lt_of_le (hs.known e he) (hsubmitted _)
  unseen e he w hw := by
    rw [heffects] at he
    exact hs.unseen e he w (hwaiting _ hw)

theorem put (hs : Shown d) {q : JobQueue} (hrunning : q.running = (d.queue s).running)
    (hsubmitted : (d.queue s).submitted ≤ q.submitted)
    (hwaiting : q.waiting.items ⊆ (d.queue s).waiting.items) :
    Shown (d.put s q) := by
  refine hs.of_le rfl ?_ ?_ ?_
  · exact (forall_update_iff _ fun t (q : JobQueue) => ∀ r, q.running = some r →
      (d.queue t).running = some r).mpr
      ⟨fun r hr => hrunning ▸ hr, fun _ _ _ => id⟩
  · exact (forall_update_iff _ fun t (q : JobQueue) => (d.queue t).submitted ≤ q.submitted).mpr
      ⟨hsubmitted, fun _ _ => Nat.le_refl _⟩
  · exact (forall_update_iff _ fun t (q : JobQueue) => q.waiting.items ⊆ (d.queue t).waiting.items).mpr
      ⟨hwaiting, fun _ _ => List.Subset.refl _⟩

theorem post (hs : Shown d) (s : Service) (e : Event) : Shown (d.post s e) :=
  hs.put rfl (Nat.le_refl _) (List.Subset.refl _)

/-- Something of a job is seen that was submitted and does not wait. -/
theorem append (hs : Shown d) (effects : List Effect)
    (hknown : ∀ e ∈ effects, e.job.number < (d.queue e.job.service).submitted ∧
      ∀ w ∈ (d.queue e.job.service).waiting.items, w.number ≠ e.job.number)
    (hd : d'.effects = d.effects ++ effects) (hqueue : d'.queue = d.queue) : Shown d' where
  started t r hr := by
    rw [hqueue] at hr
    obtain ⟨m, hm⟩ := hs.started t r hr
    exact ⟨m, hd ▸ List.mem_append_left _ hm⟩
  known e he := by
    rw [hd] at he
    rw [hqueue]
    exact (List.mem_append.mp he).elim (hs.known e) fun h => (hknown e h).1
  unseen e he := by
    rw [hd] at he
    rw [hqueue]
    exact (List.mem_append.mp he).elim (hs.unseen e) fun h => (hknown e h).2

theorem follow (hs : Shown d) (hl : Lined d) (due : Due d s q r h move) :
    Shown (d.after s q (r.follow s h move)) := by
  have hf := r.follow_follows s h move
  have hwaiting : ∀ t, ((d.after s q (r.follow s h move)).queue t).waiting.items ⊆
      (d.queue t).waiting.items :=
    (forall_update_iff _ fun t (q : JobQueue) => q.waiting.items ⊆ (d.queue t).waiting.items).mpr
      ⟨due.waiting_subset, fun _ _ => List.Subset.refl _⟩
  refine ⟨fun t r' hr' => ?_, fun e he => ?_, fun e he w hw => ?_⟩
  · by_cases ht : t = s
    · subst ht
      rcases hf.standing with ⟨r₁, hr₁, hn, _⟩ | ⟨o, ho⟩
      · have hsame : r₁ = r' := by simpa [after, hr₁, Standing.running?] using hr'
        have hticket : r'.ticket t = r.ticket t := by rw [← hsame, Running.ticket, hn, Running.ticket]
        rw [hticket]
        rcases due.sent_or_opens hs with ⟨m, hm⟩ | hopens
        · exact ⟨m, List.mem_append_left _ hm⟩
        · obtain ⟨m, hm⟩ := hf.sent hopens hr₁
          exact ⟨m, List.mem_append_right _ hm⟩
      · simp [after, ho, Standing.running?] at hr'
    · simp only [after, update_of_ne ht] at hr'
      obtain ⟨m, hm⟩ := hs.started t r' hr'
      exact ⟨m, List.mem_append_left _ hm⟩
  · rw [due.submitted_after]
    rcases List.mem_append.mp he with hold | hnew
    · exact hs.known e hold
    · rw [(hf.effects hnew).1]
      exact hl.number_lt due.mem_line
  · rcases List.mem_append.mp he with hold | hnew
    · exact hs.unseen e hold w (hwaiting _ hw)
    · rw [(hf.effects hnew).1] at hw ⊢
      have hrest : w ∈ q.waiting.items := by simpa [after, Running.ticket] using hw
      exact hl.number_ne due.line hrest

theorem enrol (hs : Shown d) (task : Task) : Shown (d.enrol s task) := by
  refine ⟨fun t r hr => ?_, fun e he => ?_, fun e he w hw => ?_⟩
  · have hrunning : (d.queue t).running = some r := by
      rw [enrol_queue] at hr
      by_cases ht : t = s
      · subst ht
        simpa using hr
      · rwa [update_of_ne ht] at hr
    exact hs.started t r hrunning
  · refine Nat.lt_of_lt_of_le (hs.known e he) ?_
    rw [enrol_queue]
    by_cases ht : e.job.service = s
    · simp [ht]
    · simp [update_of_ne ht]
  · have hknown := hs.known e he
    rw [enrol_queue] at hw
    by_cases ht : e.job.service = s
    · rw [ht] at hw hknown
      simp only [update_self, JobQueue.counted_waiting, JobQueue.withWaiting_waiting] at hw
      rcases List.mem_append.mp hw with hold | hnew
      · exact hs.unseen e he w (ht ▸ hold)
      · rw [List.mem_singleton.mp hnew]
        exact Nat.ne_of_gt hknown
    · rw [update_of_ne ht] at hw
      exact hs.unseen e he w hw

theorem turnAway (hs : Shown d) (hl : Lined d) (task : Task) : Shown (d.turnAway s task) := by
  have hask : Shown (d.ask s task) := (hs.put (q := (d.queue s).counted) rfl (Nat.le_succ _)
    (List.Subset.refl _)).of_le rfl (fun _ _ => id) (fun _ => Nat.le_refl _) fun _ => List.Subset.refl _
  refine hask.append [.result ⟨s, (d.queue s).submitted⟩ (.failed .busy)] (fun e he => ?_) rfl rfl
  rw [List.mem_singleton.mp he]
  refine ⟨by simp [Effect.job, Desk.ask], fun w hw => ?_⟩
  have hline : w ∈ (d.queue s).line :=
    (d.queue s).waiting_subset_line (by simpa [Effect.job, Desk.ask] using hw)
  exact Nat.ne_of_lt (hl.number_lt hline)

theorem tell (hs : Shown d) (ha : Accounted d) {t : Ticket} {o : Outcome} {rest : List (Ticket × Outcome)}
    (ho : d.owing = (t, o) :: rest) : Shown (d.tell t o rest) := by
  refine hs.append [.result t o] (fun e he => ?_) rfl rfl
  rw [List.mem_singleton.mp he]
  obtain ⟨hlt, hgone⟩ := ha.of_owed (Accounted.owed_pos ho)
  refine ⟨hlt, fun w hw hnumber => ?_⟩
  have hstanding : 0 < d.standing t :=
    List.countP_pos_iff.mpr ⟨w, (d.queue t.service).waiting_subset_line hw, decide_eq_true hnumber⟩
  omega

theorem step (hs : Shown d) (hl : Lined d) (ha : Accounted d) (hstep : Step i d d') : Shown d' := by
  cases hstep with
  | follow due => exact hs.follow hl due
  | skip running events stray => exact hs.put rfl (Nat.le_refl _) (List.Subset.refl _)
  | clear idle => exact hs.put rfl (Nat.le_refl _) (List.Subset.refl _)
  | tell owing => exact hs.tell ha owing
  | enrol asked => exact hs.enrol _
  | turnAway asked busy => exact hs.turnAway hl _
  | @callOff s w before after waiting =>
      have hless : before ++ after ⊆ (d.queue s).waiting.items := by
        rw [waiting]
        exact ((List.sublist_cons_self w after).append_left before).subset
      exact (hs.put (q := (d.queue s).withWaiting (before ++ after)) rfl (Nat.le_refl _) hless).of_le rfl
        (fun _ _ => id) (fun _ => Nat.le_refl _) fun _ => List.Subset.refl _
  | fire armed due =>
      exact (hs.post _ _).of_le rfl (fun _ _ => id) (fun _ => Nat.le_refl _) fun _ => List.Subset.refl _
  | deliver received subscribed =>
      obtain hsame | ⟨s, job, hpost⟩ := deliver_cases _ _ _ _
      · rwa [hsame]
      · rw [hpost]
        exact hs.post _ _

end Shown

/-- What holds of an engine at every moment. -/
structure Sound (d : Desk) : Prop where
  lined : Lined d
  accounted : Accounted d
  shown : Shown d
  subscribed : Subscribed d
  tended : Tended d.hub.timers d.queue

theorem Sound.step (h : Sound d) (hs : Step i d d') : Sound d' where
  lined := h.lined.step hs
  accounted := h.accounted.step hs
  shown := h.shown.step h.lined h.accounted hs
  subscribed := h.subscribed.step h.lined hs
  tended := tended_step h.tended hs

theorem Sound.under (h : Sound d) (i : Input) : Sound (d.under i) :=
  ⟨⟨h.lined.counted, h.lined.placed, h.lined.begun, h.lined.named, h.lined.apart⟩,
    ⟨h.accounted.once, h.accounted.closed⟩, ⟨h.shown.started, h.shown.known, h.shown.unseen⟩, h.subscribed,
    h.tended⟩

theorem Step.clock (hs : Step i d d') : d'.hub.clock = d.hub.clock := by
  cases hs with
  | follow due =>
      rw [after, (Running.follow_follows _ _ _ _).clock]
      cases due <;> rfl
  | callOff waiting => exact Hub.retire_clock _ _ _
  | deliver received subscribed =>
      rw [deliver_hub]
  | _ => rfl

/-- Timers that fire leave their expiries and nothing else. -/
theorem Fires.around {D : Desk} (hfires : Fires d D) :
    D.hub.timers.issued = d.hub.timers.issued ∧ D.hub.timers.armed ⊆ d.hub.timers.armed ∧
      D.hub.clock = d.hub.clock ∧
        ∀ s, (D.queue s).running = (d.queue s).running ∧ (D.queue s).waiting = (d.queue s).waiting := by
  induction hfires with
  | refl => exact ⟨rfl, List.Subset.refl _, rfl, fun _ => ⟨rfl, rfl⟩⟩
  | @tail D _ _ hlast ih =>
      cases hlast with
      | @fire x armed due =>
          obtain ⟨hissued, harmed, hclock, hqueue⟩ := ih
          have hless : (D.fire x).hub.timers.armed ⊆ D.hub.timers.armed :=
            fun y hy => (Timers.mem_remove.mp hy).1
          have hsame : ∀ s, ((D.fire x).queue s).running = (D.queue s).running ∧
              ((D.fire x).queue s).waiting = (D.queue s).waiting :=
            (forall_update_iff _ fun s (q : JobQueue) => q.running = (D.queue s).running ∧
              q.waiting = (D.queue s).waiting).mpr ⟨⟨rfl, rfl⟩, fun _ _ => ⟨rfl, rfl⟩⟩
          exact ⟨hissued, List.Subset.trans hless harmed, hclock,
            fun s => ⟨(hsame s).1.trans (hqueue s).1, (hsame s).2.trans (hqueue s).2⟩⟩

theorem Sound.fires {D : Desk} (hs : Sound d) (hfires : Fires d D) : Sound D := by
  induction hfires with
  | refl => exact hs
  | tail _ hlast ih => exact ih.step (i := .tick) hlast.step

end Desk

namespace Engine

variable (config : Config) (link : Link) (clock : Instant)

/-- After timers were fired none is due. -/
theorem fireTimers_late (e : Engine) {effects : List Effect} {asked : Service → List Task}
    (hs : (e.desk effects asked).Sound) :
    ∀ x ∈ e.fireTimers.hub.timers.armed, ¬x.deadline ≤ e.fireTimers.hub.clock := by
  have hfires := e.fires_fireTimers effects asked
  have hissued : e.fireTimers.hub.timers.issued = e.hub.timers.issued := (Desk.Fires.around hfires).1
  have hclock : e.fireTimers.hub.clock = e.hub.clock := (Desk.Fires.around hfires).2.2.1
  have hnone : e.fireTimers.hub.timers.due? e.hub.clock e.hub.timers.issued = none :=
    Timers.due?_passFrom (fun _ _ _ => rfl) _ _ _ (Nat.le_refl _)
  intro x hx
  have hold : x.cookie < e.hub.timers.issued := hissued ▸ (hs.fires hfires).tended.issued x hx
  rw [hclock]
  exact Timers.not_due_of_due?_none hnone hx hold

theorem queue_work (e : Engine) (s : Service) :
    (e.work s).engine.queue = update e.queue s ((e.queue s).work s e.hub).queue := by
  simp only [work, afterTurn, queue_withHub, queue_withQueue]
  rfl

/-- After a look at everything every queue has worked. -/
theorem rested_tick (e : Engine) (s : Service) : (e.tick.engine.queue s).Rested := by
  have hwork : ∀ (e : Engine) (s t : Service), ((e.queue t).Rested ∨ t = s) →
      ((e.work s).engine.queue t).Rested := by
    intro e s t ht
    rw [queue_work]
    by_cases hts : t = s
    · subst hts
      rw [update_self]
      exact JobQueue.rested_work _ _ _
    · rw [update_of_ne hts]
      exact ht.resolve_right hts
  simp only [tick, Reaction.next]
  obtain _ | ⟨_ | _⟩ := s
  · exact hwork _ _ _ (.inl (hwork _ _ _ (.inl (hwork _ _ _ (.inr rfl)))))
  · exact hwork _ _ _ (.inl (hwork _ _ _ (.inr rfl)))
  · exact hwork _ _ _ (.inr rfl)

theorem run_append (e : Engine) (a b : List Input) : e.run (a ++ b) = (e.run a).next (·.run b) := by
  induction a generalizing e with
  | nil => simp [run, Reaction.next]
  | cons i rest ih => simp [run, Reaction.next, ih]

theorem run_tick (e : Engine) (inputs : List Input) :
    e.run (inputs ++ [.tick]) = (e.run inputs).next tick := by
  rw [run_append]
  simp [run, step, Reaction.next]

theorem sound_idle : ((idle config link clock).desk [] fun _ => []).Sound := by
  have hqueue : ∀ t, ((idle config link clock).desk [] fun _ => []).queue t = .empty := by
    intro t
    obtain _ | ⟨_ | _⟩ := t <;> rfl
  refine ⟨lined_idle _ _ _, accounted_idle _ _ _,
    ⟨fun t r hr => ?_, fun e he => absurd he List.not_mem_nil, fun e he => absurd he List.not_mem_nil⟩, ?_,
    ⟨List.nodup_nil, fun x hx => absurd hx List.not_mem_nil, fun x hx => absurd hx List.not_mem_nil,
      fun t r hr => ?_, fun t n c he => ?_⟩⟩
  · rw [hqueue] at hr
    cases hr
  · exact List.Perm.refl _
  · rw [hqueue] at hr
    cases hr
  · rw [hqueue] at he
    cases he

theorem sound_run (inputs : List Input) : ((idle config link clock).deskAfter inputs).Sound :=
  run_keeps (P := Desk.Sound) (fun i _ h => h.under i) (fun _ _ _ h hs => h.step hs) _ inputs
    (sound_idle config link clock)

end Engine

/-- Whether the clock never goes back while inputs are taken in. -/
def ClockSteady : Instant → List Input → Prop
  | _, [] => True
  | now, i :: rest => now ≤ i.clock now ∧ ClockSteady (i.clock now) rest

namespace Engine

theorem punctual_run (inputs : List Input) :
    ∀ e : Engine, e.hub.Punctual → ClockSteady e.hub.clock inputs → (e.run inputs).engine.hub.Punctual := by
  induction inputs with
  | nil =>
      intro e hp _
      exact hp
  | cons i rest ih =>
      intro e hp hsteady
      -- an input moves the clock before anything else is done; small steps leave the clock where it is
      obtain ⟨hle, hrest⟩ := hsteady
      have hone := step_keeps (i := i) (P := fun d => d.hub.Punctual ∧ d.hub.clock = i.clock e.hub.clock)
        (fun d d' h hs => ⟨Desk.punctual_step h.1 hs, hs.clock.trans h.2⟩) e [] (fun _ => [])
        ⟨hp.mono rfl (UInt64.le_iff_toNat_le.mp hle), rfl⟩
      exact ih _ hone.1 (hone.2.symm ▸ hrest)

theorem clockSteady_tick (inputs : List Input) :
    ∀ now : Instant, ClockSteady now inputs → ClockSteady now (inputs ++ [.tick]) := by
  induction inputs with
  | nil =>
      intro now _
      exact ⟨UInt64.le_refl now, trivial⟩
  | cons i rest ih =>
      intro now h
      exact ⟨h.1, ih _ h.2⟩

end Engine

/-- Whether a job that waits has done nothing so far, and nothing was done for it: nothing is seen of it,
and it has neither a timer nor a handler. -/
def Reaction.Untouched (r : Reaction) (s : Service) (w : Waiting) : Prop :=
  (∀ e ∈ r.effects, e.job ≠ ⟨s, w.number⟩) ∧ (∀ x ∈ r.engine.hub.timers.armed, x.tag ≠ ⟨s, w.number⟩) ∧
    ∀ x ∈ r.engine.hub.handlers.entries, x.owner ≠ w.owner ∧ ∀ system, x.action ≠ .job ⟨s, w.number⟩ system

/-- Whether a job is under way: it has sent something, nobody was told how it ended, and the one timer
armed for it goes off in time. -/
def Reaction.UnderWay (r : Reaction) (s : Service) (j : Running) : Prop :=
  (∃ m, .sent (j.ticket s) m ∈ r.effects) ∧ r.effects.countP (·.settles (j.ticket s)) = 0 ∧
    ∃ x, r.engine.hub.timers.armed.filter (·.tag = j.ticket s) = [x] ∧ j.cookie = some x.cookie ∧
      x.deadline.toNat ≤ r.engine.hub.clock.toNat + x.span.micros

/-- Whether a queue is empty or its first job is under way, with the others still untouched. -/
def Reaction.Attended (r : Reaction) (s : Service) : Prop :=
  (r.engine.queue s).line = [] ∨
    ∃ j, (r.engine.queue s).running = some j ∧ r.UnderWay s j ∧
      ∀ w ∈ (r.engine.queue s).waiting.items, r.Untouched s w

namespace JobQueue

/-- The kinds of message that the first job of a queue listens to for itself. -/
def headKinds (q : JobQueue) : List Kind := q.line.head?.toList.flatMap (·.task.kinds)

theorem line_of_rested {q : JobQueue} (hq : q.Rested) (hr : q.running = none) : q.line = [] := by
  rw [line_of_idle hr, hq.2 hr]

theorem length_handlers {q : JobQueue} (hq : q.Rested) (s : Service) :
    (q.handlers s).length = q.headKinds.length := by
  cases hr : q.running with
  | none => simp [handlers_of_idle hr, headKinds, line_of_rested hq hr]
  | some r => simp [handlers_of_running hr, headKinds, line_of_running hr, Waiting.handlers]

end JobQueue

theorem length_eq_sum_filter (timers : List (Timer Ticket)) :
    timers.length = (Service.all.map fun s => (timers.filter (·.tag.service = s)).length).sum := by
  induction timers with
  | nil => rfl
  | cons x rest ih =>
      have hx : ∀ s, ((x :: rest).filter (·.tag.service = s)).length =
          (rest.filter (·.tag.service = s)).length + if x.tag.service = s then 1 else 0 := by
        intro s
        by_cases h : x.tag.service = s <;> simp [h]
      have hone : (Service.all.map fun s => if x.tag.service = s then 1 else 0).sum = 1 := by
        obtain _ | ⟨_ | _⟩ := x.tag.service <;> rfl
      simp only [Service.all, List.map_cons, List.map_nil, List.sum_cons, List.sum_nil, List.length_cons, hx]
        at ih hone ⊢
      omega

namespace Desk

variable {d : Desk} {s : Service}

theorem Sound.length_filter (h : Sound d) (hq : (d.queue s).Rested) :
    (d.hub.timers.armed.filter (·.tag.service = s)).length = if (d.queue s).line ≠ [] then 1 else 0 := by
  cases hr : (d.queue s).running with
  | none =>
      rw [h.tended.filter_idle hr, if_neg (not_not_intro (JobQueue.line_of_rested hq hr))]
      rfl
  | some r =>
      obtain ⟨x, hx, _, _⟩ := h.tended.filter_running hr hq.1
      rw [hx, if_pos (by rw [JobQueue.line_of_running hr]; exact List.cons_ne_nil _ _)]
      rfl

theorem Sound.filter_ticket (h : Sound d) (hq : (d.queue s).Rested) {r : Running}
    (hr : (d.queue s).running = some r) :
    ∃ x, d.hub.timers.armed.filter (·.tag = r.ticket s) = [x] ∧ r.cookie = some x.cookie := by
  obtain ⟨x, hx, htag, hc⟩ := h.tended.filter_running hr hq.1
  have hsame : d.hub.timers.armed.filter (·.tag = r.ticket s) =
      (d.hub.timers.armed.filter (·.tag.service = s)).filter (·.tag = r.ticket s) := by
    rw [List.filter_filter]
    apply List.filter_congr
    intro y _
    by_cases hy : y.tag = r.ticket s
    · simp [hy, Running.ticket]
    · simp [hy]
  refine ⟨x, ?_, hc⟩
  rw [hsame, hx]
  exact List.filter_cons_of_pos (decide_eq_true htag)

theorem Sound.tag_ne (h : Sound d) {w : Waiting} (hw : w ∈ (d.queue s).waiting.items) :
    ∀ x ∈ d.hub.timers.armed, x.tag ≠ ⟨s, w.number⟩ := by
  intro x hx htag
  obtain ⟨r, hr, hn, _⟩ := h.tended.owned x hx
  rw [htag] at hr hn
  exact h.lined.number_ne (JobQueue.line_of_running hr) hw hn.symm

/-- The timers are those of the queues that are not empty. -/
theorem Sound.size_timers (h : Sound d) (hq : ∀ s, (d.queue s).Rested) :
    d.hub.timers.size = Service.all.countP fun s => (d.queue s).line ≠ [] := by
  have hfilter : ∀ s, (d.hub.timers.armed.filter (·.tag.service = s)).length =
      if (d.queue s).line ≠ [] then 1 else 0 := by
    intro s
    exact h.length_filter (hq s)
  rw [Timers.size, length_eq_sum_filter]
  simp only [hfilter]
  simp only [Service.all, List.map_cons, List.map_nil, List.sum_cons, List.sum_nil, List.countP_cons,
    List.countP_nil, decide_eq_true_eq]
  omega

theorem Sound.count_handlers (h : Sound d) (hq : ∀ s, (d.queue s).Rested)
    (hcommands : (d.queue .commands).headKinds = []) :
    d.hub.handlers.count = 1 + (d.queue (.mission .client)).headKinds.length +
      (d.queue (.mission .server)).headKinds.length := by
  have hlength : ∀ s, ((d.queue s).handlers s).length = (d.queue s).headKinds.length := by
    intro s
    exact JobQueue.length_handlers (hq s) s
  rw [h.subscribed.count]
  simp only [hlength, Service.all, List.map_cons, List.map_nil, List.sum_cons, List.sum_nil, hcommands,
    List.length_nil]
  omega

end Desk

/-- A queue that has worked is empty or attended to. -/
theorem Reaction.attended {r : Reaction} {asked : Service → List Task} {s : Service}
    (h : (r.engine.desk r.effects asked).Sound) (hp : r.engine.hub.Punctual)
    (hq : (r.engine.queue s).Rested) :
    r.Attended s := by
  cases hr : (r.engine.queue s).running with
  | none => exact .inl (JobQueue.line_of_rested hq hr)
  | some j =>
      have hstanding : 0 < (r.engine.desk r.effects asked).standing (j.ticket s) :=
        List.countP_pos_iff.mpr ⟨j.slot, JobQueue.slot_mem_line hr, decide_eq_true rfl⟩
      have htold : r.effects.countP (·.settles (j.ticket s)) = 0 := h.accounted.told_eq_zero (.inl hstanding)
      obtain ⟨x, hx, hc⟩ := h.filter_ticket hq hr
      have harmed : x ∈ r.engine.hub.timers.armed := (List.mem_filter.mp (hx ▸ List.mem_singleton_self x)).1
      right
      refine ⟨j, hr, ⟨h.shown.started s j hr, htold, x, hx, hc, hp x harmed⟩,
        fun w hw => ⟨?_, h.tag_ne hw, ?_⟩⟩
      · intro e he hjob
        have hwaiting : w ∈ (r.engine.queue e.job.service).waiting.items := by
          rw [hjob]
          exact hw
        exact h.shown.unseen e he w hwaiting (congrArg Ticket.number hjob).symm
      · intro x hx
        exact h.subscribed.ne_waiting h.lined hw hx

namespace Engine

/-- Commands are submitted to the queue for commands, transfers to the one of their side. -/
theorem service_of_submitted {inputs : List Input} {s : Service} {n : Nat} {task : Task}
    (h : (submitted inputs s)[n]? = some task) :
    (∃ a, task = .command a) ∧ s = .commands ∨ ∃ side t, task = .transfer t ∧ s = .mission side := by
  obtain ⟨i, _, hi⟩ := List.mem_filterMap.mp (List.mem_of_getElem? h)
  cases i with
  | command a =>
      obtain ⟨rfl, rfl⟩ : s = .commands ∧ Task.command a = task := by simpa [Input.task?] using hi
      exact .inl ⟨⟨a, rfl⟩, rfl⟩
  | transfer side t admission =>
      obtain ⟨rfl, rfl⟩ : s = .mission side ∧ Task.transfer t = task := by simpa [Input.task?] using hi
      exact .inr ⟨side, t, rfl, rfl⟩
  | _ => cases hi

theorem command_submitted {inputs : List Input} {n : Nat} {task : Task}
    (h : (submitted inputs .commands)[n]? = some task) : ∃ a, task = .command a := by
  rcases service_of_submitted h with ⟨ha, -⟩ | ⟨side, t, -, hs⟩
  · exact ha
  · cases hs

theorem transfer_submitted {inputs : List Input} {side : Side} {n : Nat} {task : Task}
    (h : (submitted inputs (.mission side))[n]? = some task) : ∃ t, task = .transfer t := by
  rcases service_of_submitted h with ⟨-, hs⟩ | ⟨_, t, ht, -⟩
  · cases hs
  · exact ⟨t, ht⟩

/-- Jobs of the command queue have no handlers of their own. -/
theorem kinds_of_command {inputs : List Input} {n : Nat} {task : Task}
    (h : (submitted inputs .commands)[n]? = some task) : task.kinds = [] := by
  obtain ⟨a, rfl⟩ := command_submitted h
  rfl

/-- While the clock does not go back, after a look at everything each queue is empty or attended to. A
timer is armed for every queue that is not empty and for nothing else, and the handlers are the one for
commands and those of the two transfers that come first. -/
theorem tick_attends (config : Config) (link : Link) (clock : Instant) (inputs : List Input)
    (hsteady : ClockSteady clock inputs) :
    let r := (idle config link clock).run (inputs ++ [.tick])
    (∀ s, r.Attended s) ∧
      r.engine.hub.timers.size = Service.all.countP (fun s => (r.engine.queue s).line ≠ []) ∧
        r.engine.hub.handlers.count = 1 + r.engine.client.headKinds.length +
          r.engine.server.headKinds.length := by
  intro r
  have hsound : (r.engine.desk r.effects (submitted (inputs ++ [.tick]))).Sound :=
    sound_run config link clock _
  have hrested : ∀ s, (r.engine.queue s).Rested := by
    intro s
    show (((idle config link clock).run (inputs ++ [.tick])).engine.queue s).Rested
    rw [run_tick]
    exact rested_tick _ s
  have hpunctual : r.engine.hub.Punctual := by
    apply punctual_run
    · intro x hx
      exact absurd hx List.not_mem_nil
    · exact clockSteady_tick inputs _ hsteady
  have hcommands : (r.engine.queue .commands).headKinds = [] := by
    cases hline : (r.engine.queue .commands).line with
    | nil => simp [JobQueue.headKinds, hline]
    | cons w others =>
        have hmem : w ∈ (r.engine.queue .commands).line := hline ▸ List.mem_cons_self
        have hasked := hsound.lined.asked (s := .commands) hmem
        simp [JobQueue.headKinds, hline, kinds_of_command hasked]
  refine ⟨?_, hsound.size_timers hrested, hsound.count_handlers hrested hcommands⟩
  intro s
  exact Reaction.attended hsound hpunctual (hrested s)

/-- A download that has asked for its list, with another behind it. -/
theorem tick_attends_downloads :
    let download : Input := .transfer .client (.download ⟨⟨.pilotOf 1, .mission⟩, true⟩) .queue
    let inputs : List Input := [download, download, .tick, .advance 100]
    ClockSteady 0 inputs ∧ ∀ s, ((idle .default default 0).run (inputs ++ [.tick])).Attended s := by
  intro download inputs
  have hsteady : ClockSteady 0 inputs := ⟨by decide, by decide, by decide, by decide, trivial⟩
  exact ⟨hsteady, (tick_attends .default default 0 inputs hsteady).1⟩

end Engine

end GroundLink
