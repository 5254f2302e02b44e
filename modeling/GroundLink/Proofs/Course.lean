import GroundLink.Proofs.Attendance

/-! The course of a job: what was seen of it so far, in order, and the state that has led to. Every job
that is under way in an engine has such a course (`Engine.course_meanwhile`), also between two events that
its queue takes in at once. What is to be shown of one kind of job for every order of messages and
timeouts is then shown by induction on its course. -/

namespace GroundLink

open Function

/-- What is seen of a step that waits on, once its message is accepted. -/
def Task.seen (task : Task) (t : Ticket) (report : Option Fraction) (message : Option Message) :
    List Effect :=
  (if task.wantsProgress then report.toList.map (.progress t) else []) ++ message.toList.map (.sent t)

/-- What was seen of a job and the state it has come to. Of what it knows of its engine only the flight
stack ever changes. -/
inductive Course (p : Policy) (own : Address) (t : Ticket) (task : Task) : List Effect → Activity → Prop
  | start {autopilot : Autopilot} {wait : Wait} {report : Option Fraction} {message : Option Message}
      {a : Activity}
      (move : task.start ⟨p, own, autopilot⟩ = .proceed wait report message a) :
      Course p own t task (task.seen t report message) a
  | message {autopilot : Autopilot} {sender : Address} {m : Message} {wait : Wait} {report : Option Fraction}
      {message : Option Message} {a b : Activity} {seen : List Effect} (past : Course p own t task seen a)
      (move : a.onMessage ⟨p, own, autopilot⟩ sender m = .proceed wait report message b) :
      Course p own t task (seen ++ task.seen t report message) b
  | timeout {autopilot : Autopilot} {wait : Wait} {report : Option Fraction} {message : Option Message}
      {a b : Activity} {seen : List Effect} (past : Course p own t task seen a)
      (move : a.onTimeout ⟨p, own, autopilot⟩ = .proceed wait report message b) :
      Course p own t task (seen ++ task.seen t report message) b

theorem Course.task_eq {p : Policy} {own : Address} {t : Ticket} {task : Task} {seen : List Effect}
    {a : Activity} (h : Course p own t task seen a) : a.task = task := by
  induction h with
  | start move => exact Task.task_of_start (by rw [move]; rfl)
  | message past move ih => exact (Activity.task_of_onMessage (by rw [move]; rfl)).trans ih
  | timeout past move ih => exact (Activity.task_of_onTimeout (by rw [move]; rfl)).trans ih

namespace Hub

/-- Whether two hubs are of one engine: they have the same policies and the same address. -/
def Kin (h h' : Hub) : Prop := h'.policy = h.policy ∧ h'.link.own = h.link.own

variable {h h' h'' : Hub}

theorem Kin.refl (h : Hub) : h.Kin h := ⟨rfl, rfl⟩

theorem Kin.trans (hk : h.Kin h') (hk' : h'.Kin h'') : h.Kin h'' := ⟨hk'.1.trans hk.1, hk'.2.trans hk.2⟩

theorem kin_offered (h : Hub) (m : Option Message) : h.Kin (h.offered m) := by
  cases m <;> exact .refl _

theorem kin_await (h : Hub) (t : Ticket) (c : Option Cookie) (w : Wait) : h.Kin (h.await t c w).2 := by
  cases w <;> cases c <;> exact .refl _

theorem kin_retire (h : Hub) (o : Owner) (c : Option Cookie) : h.Kin (h.retire o c) := by
  cases c <;> exact .refl _

end Hub

namespace Running

variable {r : Running} {s : Service} {h : Hub} {move : Move Activity} {p : Progress}

theorem report_append (r : Running) (s : Service) (f : Option Fraction) (message : Option Message) :
    r.report s f ++ message.toList.map (.sent (r.ticket s)) =
      r.activity.task.seen (r.ticket s) f message := by
  cases f <;> simp [report, Task.seen]

theorem Follows.kin (hf : Follows r s h move p) : h.Kin p.hub := by
  cases hf with
  | ignored => exact .refl h
  | waited wait report message activity taken =>
      exact (h.kin_await _ _ wait).trans (Hub.kin_offered _ message)
  | broken wait report m activity refused =>
      exact ((h.kin_await _ _ wait).trans (Hub.kin_offered _ _)).trans (Hub.kin_retire _ _ _)
  | finished message report outcome taken => exact (h.kin_offered message).trans (Hub.kin_retire _ _ _)
  | failed m report outcome refused => exact (h.kin_offered _).trans (Hub.kin_retire _ _ _)

/-- A job a step leaves under way has gone on as the step says, or the step ignored what happened. -/
theorem Follows.proceeds (hf : Follows r s h move p) {r' : Running} (hr : p.standing.running? = some r') :
    (move = .ignore ∧ p.effects = [] ∧ r' = r) ∨
      ∃ wait report message, move = .proceed wait report message r'.activity ∧
        p.effects = r.activity.task.seen (r.ticket s) report message := by
  cases hf with
  | ignored =>
      cases hr
      exact .inl ⟨rfl, rfl, rfl⟩
  | waited wait report message activity taken =>
      cases hr
      exact .inr ⟨wait, report, message, rfl, report_append r s report message⟩
  | broken wait report m activity refused => cases hr
  | finished message report outcome taken => cases hr
  | failed m report outcome refused => cases hr

theorem Follows.ticket (hf : Follows r s h move p) {r' : Running} (hr : p.standing.running? = some r') :
    r'.ticket s = r.ticket s := by
  rw [Running.ticket, (hf.running hr).1, Running.ticket]

/-- A step that answers a message or a timeout takes the course of a job further. -/
theorem Follows.course {task : Task} {seen : List Effect} {r' : Running} (hf : Follows r s h move p)
    (hc : Course (h.policy s) h.link.own (r.ticket s) task seen r.activity)
    (hmove : (∃ sender m, move = r.activity.onMessage (h.setting s) sender m) ∨
      move = r.activity.onTimeout (h.setting s))
    (hr : p.standing.running? = some r') :
    Course (h.policy s) h.link.own (r.ticket s) task (seen ++ p.effects) r'.activity := by
  rcases hf.proceeds hr with ⟨_, hnone, rfl⟩ | ⟨wait, report, message, hgo, heffects⟩
  · rwa [hnone, List.append_nil]
  · rw [heffects, hc.task_eq]
    rcases hmove with ⟨sender, m, rfl⟩ | rfl
    · exact .message hc hgo
    · exact .timeout hc hgo

theorem course_take {seen : List Effect} {r' : Running} {task : Task}
    (hc : Course (h.policy s) h.link.own (r.ticket s) task seen r.activity) (e : Event)
    (hr : (r.take s h e).standing.running? = some r') :
    Course (h.policy s) h.link.own (r.ticket s) task (seen ++ (r.take s h e).effects) r'.activity := by
  have ht := r.take_takes s h e
  generalize r.take s h e = p at ht hr
  cases ht with
  | stray hstray =>
      cases hr
      rwa [List.append_nil]
  | heard concerns => exact (r.follow_follows s h _).course hc (.inl ⟨_, _, rfl⟩) hr
  | expired own => exact (({ r with cookie := none } : Running).follow_follows s h _).course hc (.inr rfl) hr

theorem take_kin (r : Running) (s : Service) (h : Hub) (e : Event) : h.Kin (r.take s h e).hub := by
  have ht := r.take_takes s h e
  generalize r.take s h e = p at ht
  cases ht with
  | stray hstray => exact .refl h
  | heard concerns => exact (follow_follows _ _ _ _).kin
  | expired own => exact (follow_follows _ _ _ _).kin

/-- What is seen of a job that takes an event in is seen of that job. -/
theorem take_effects (r : Running) (s : Service) (h : Hub) (e : Event) :
    ∀ x ∈ (r.take s h e).effects, x.job = r.ticket s := by
  have ht := r.take_takes s h e
  generalize r.take s h e = p at ht
  intro x hx
  cases ht with
  | stray hstray => exact absurd hx List.not_mem_nil
  | heard concerns => exact ((r.follow_follows s h _).effects hx).1
  | expired own => exact ((({ r with cookie := none } : Running).follow_follows s h _).effects hx).1

theorem take_ticket {r' : Running} (e : Event) (hr : (r.take s h e).standing.running? = some r') :
    r'.ticket s = r.ticket s := by
  have ht := r.take_takes s h e
  generalize r.take s h e = p at ht hr
  cases ht with
  | stray hstray =>
      cases hr
      rfl
  | heard concerns => exact (r.follow_follows s h _).ticket hr
  | expired own => exact (({ r with cookie := none } : Running).follow_follows s h _).ticket hr

theorem takeAll_effects (events : List Event) :
    ∀ (r : Running) (h : Hub), ∀ x ∈ (takeAll s events r h).effects, x.job = r.ticket s := by
  induction events with
  | nil => exact fun r h x hx => absurd hx List.not_mem_nil
  | cons e rest ih =>
      intro r h x hx
      simp only [takeAll] at hx
      cases hp : (r.take s h e).standing with
      | ended _ =>
          simp only [hp] at hx
          exact r.take_effects s h e x hx
      | running r₁ =>
          simp only [hp, Progress.preceded] at hx
          rcases List.mem_append.mp hx with hx | hx
          · exact r.take_effects s h e x hx
          · exact (ih r₁ _ x hx).trans (take_ticket e (by rw [hp]; rfl))

/-- Taking events in takes the course of a job further. -/
theorem course_takeAll {task : Task} {r' : Running} (events : List Event) :
    ∀ {r : Running} {h : Hub} {seen : List Effect},
      Course (h.policy s) h.link.own (r.ticket s) task seen r.activity →
        (takeAll s events r h).standing = .running r' →
          r'.ticket s = r.ticket s ∧ h.Kin (takeAll s events r h).hub ∧
            Course (h.policy s) h.link.own (r.ticket s) task (seen ++ (takeAll s events r h).effects)
              r'.activity := by
  induction events with
  | nil =>
      intro r h seen hc hr
      cases hr
      exact ⟨rfl, .refl h, by simpa [takeAll] using hc⟩
  | cons e rest ih =>
      intro r h seen hc hr
      simp only [takeAll] at hr ⊢
      cases hp : (r.take s h e).standing with
      | ended x =>
          simp only [hp] at hr
          cases hr
      | running r₁ =>
          simp only [hp, Progress.preceded] at hr ⊢
          have hr₁ : (r.take s h e).standing.running? = some r₁ := by rw [hp]; rfl
          have ht₁ := take_ticket e hr₁
          have hc₁ := course_take hc e hr₁
          have hkin₁ := r.take_kin s h e
          rw [← ht₁, ← hkin₁.1, ← hkin₁.2] at hc₁
          obtain ⟨ht, hkin, hc'⟩ := ih hc₁ hr
          rw [ht₁, hkin₁.1, hkin₁.2, List.append_assoc] at hc'
          exact ⟨ht.trans ht₁, hkin₁.trans hkin, hc'⟩

end Running

namespace Desk

variable {i : Input} {d d' : Desk} {s : Service} {q : JobQueue} {r : Running} {h : Hub} {move : Move Activity}

/-- What was seen of a job. -/
def seenOf (d : Desk) (t : Ticket) : List Effect := d.effects.filter (·.job = t)

/-- Whether every job under way has come to its state by a course of what was seen of it. -/
def Charted (d : Desk) : Prop :=
  ∀ s r, (d.queue s).running = some r →
    Course (d.hub.policy s) d.hub.link.own (r.ticket s) r.activity.task (d.seenOf (r.ticket s)) r.activity

theorem Due.kin (due : Due d s q r h move) : d.hub.Kin h := by
  cases due <;> exact .refl _

theorem Step.kin (hs : Step i d d') : d.hub.Kin d'.hub := by
  cases hs with
  | @follow s q r h move due => exact due.kin.trans (r.follow_follows s h move).kin
  | callOff waiting => exact Hub.kin_retire _ _ _
  | deliver received subscribed =>
      rw [deliver_hub]
      exact .refl _
  | _ => exact .refl _

/-- Where the job under way stays what it was and nothing more is seen of it, its course is what it was. -/
theorem Charted.keep (hc : Charted d) (hkin : d.hub.Kin d'.hub)
    (hrunning : ∀ t r, (d'.queue t).running = some r →
      (d.queue t).running = some r ∧ d'.seenOf (r.ticket t) = d.seenOf (r.ticket t)) : Charted d' := by
  intro t r hr
  obtain ⟨hold, hseen⟩ := hrunning t r hr
  rw [hkin.1, hkin.2, hseen]
  exact hc t r hold

theorem running_update (d : Desk) {q : JobQueue} (hq : q.running = (d.queue s).running) (t : Service) :
    (update d.queue s q t).running = (d.queue t).running :=
  (forall_update_iff _ fun t (q : JobQueue) => q.running = (d.queue t).running).mpr ⟨hq, fun _ _ => rfl⟩ t

theorem Charted.put (hc : Charted d) {q : JobQueue} (hq : q.running = (d.queue s).running) :
    Charted (d.put s q) :=
  hc.keep (.refl _) fun t _ hr => ⟨d.running_update hq t ▸ hr, rfl⟩

/-- Nothing is seen of a job before it starts. -/
theorem Sound.seenOf_waiting (hs : Sound d) {w : Waiting} (hw : w ∈ (d.queue s).waiting.items) :
    d.seenOf ⟨s, w.number⟩ = [] := by
  refine List.filter_eq_nil_iff.mpr fun e he hjob => ?_
  have hjob : e.job = ⟨s, w.number⟩ := of_decide_eq_true hjob
  exact hs.shown.unseen e he w (by rw [hjob]; exact hw) (by rw [hjob])

theorem Charted.follow (hc : Charted d) (hs : Sound d) (due : Due d s q r h move) :
    Charted (d.after s q (r.follow s h move)) := by
  have hf := r.follow_follows s h move
  obtain ⟨hpolicy, hown⟩ := (Step.follow (i := .tick) due).kin
  intro t r' hr'
  rw [hpolicy, hown]
  by_cases ht : t = s
  · subst ht
    have hrunning : (r.follow t h move).standing.running? = some r' := by simpa [after] using hr'
    obtain ⟨hnumber, _, _⟩ := hf.running hrunning
    have hticket : r'.ticket t = r.ticket t := by rw [Running.ticket, hnumber, Running.ticket]
    have hseen : (d.after t q (r.follow t h move)).seenOf (r.ticket t) =
        d.seenOf (r.ticket t) ++ (r.follow t h move).effects := by
      rw [seenOf, after, List.filter_append, ← seenOf]
      congr 1
      exact List.filter_eq_self.mpr fun e he => decide_eq_true (hf.effects he).1
    rw [hticket, hseen]
    cases due with
    | hear running events concerns =>
        have hcourse := hf.course (hc t r running) (.inl ⟨_, _, rfl⟩) hrunning
        rwa [hcourse.task_eq]
    | @expire r cookie rest running events own =>
        have hcourse := hf.course (hc t r running) (.inr rfl) hrunning
        rwa [hcourse.task_eq]
    | @start w rest idle waiting =>
        have hnone : d.seenOf ((w.opening (d.hub.setting t)).ticket t) = [] :=
          hs.seenOf_waiting (by rw [waiting]; exact List.mem_cons_self)
        rw [hnone, List.nil_append]
        rcases hf.proceeds hrunning with ⟨hignore, _, _⟩ | ⟨wait, report, message, hmove, heffects⟩
        · have hopens := w.task.start_opens (d.hub.setting t)
          rw [hignore] at hopens
          exact hopens.elim
        · rw [heffects, Task.task_of_start (by rw [hmove]; rfl), Waiting.opening, Task.task_initial]
          exact .start hmove
    | cancel running =>
        rcases hf.proceeds hrunning with ⟨hignore, _, _⟩ | ⟨wait, report, message, hmove, _⟩
        · cases hignore
        · cases hmove
  · have hold : (d.queue t).running = some r' := by simpa [after, update_of_ne ht] using hr'
    have hseen : (d.after s q (r.follow s h move)).seenOf (r'.ticket t) = d.seenOf (r'.ticket t) := by
      rw [seenOf, after, List.filter_append, ← seenOf]
      have hother : (r.follow s h move).effects.filter (·.job = r'.ticket t) = [] := by
        refine List.filter_eq_nil_iff.mpr fun e he hjob => ?_
        have hticket : r.ticket s = r'.ticket t := (hf.effects he).1.symm.trans (of_decide_eq_true hjob)
        exact ht (congrArg Ticket.service hticket).symm
      rw [hother, List.append_nil]
    rw [hseen]
    exact hc t r' hold

theorem Charted.step (hc : Charted d) (hs : Sound d) (hstep : Step i d d') : Charted d' := by
  have hkin := hstep.kin
  cases hstep with
  | follow due => exact hc.follow hs due
  | skip running events stray => exact hc.put rfl
  | clear idle => exact hc.put rfl
  | @tell t o rest owing =>
      refine hc.keep hkin fun s r hr => ⟨hr, ?_⟩
      obtain ⟨_, hgone⟩ := hs.accounted.of_owed (Accounted.owed_pos owing)
      have hne : t ≠ r.ticket s := by
        rintro rfl
        have hstanding : 0 < d.standing (r.ticket s) :=
          List.countP_pos_iff.mpr ⟨r.slot, JobQueue.slot_mem_line hr, decide_eq_true rfl⟩
        exact Nat.ne_of_gt hstanding hgone
      simp [seenOf, Desk.tell, Effect.job, hne]
  | @enrol s task asked =>
      refine hc.keep hkin fun t r hr => ⟨?_, rfl⟩
      rw [enrol_queue] at hr
      exact (d.running_update (by rfl) t).symm.trans hr
  | @turnAway s task asked busy =>
      refine hc.keep hkin fun t r hr => ?_
      have hold : (d.queue t).running = some r := (d.running_update (by rfl) t).symm.trans hr
      refine ⟨hold, ?_⟩
      have hne : (⟨s, (d.queue s).submitted⟩ : Ticket) ≠ r.ticket t := by
        intro hticket
        obtain ⟨rfl, hnumber⟩ := Ticket.mk.inj hticket
        exact Nat.ne_of_lt (hs.lined.number_lt (JobQueue.slot_mem_line hold)) hnumber.symm
      simp [seenOf, Desk.turnAway, Desk.ask, Effect.job, hne]
  | @callOff s w before after waiting =>
      refine hc.keep hkin fun t r hr => ⟨?_, rfl⟩
      exact (d.running_update (by rfl) t).symm.trans hr
  | @fire x armed due =>
      refine hc.keep hkin fun t r hr => ⟨?_, rfl⟩
      exact (d.running_update (by rfl) t).symm.trans hr
  | deliver received subscribed =>
      obtain hsame | ⟨s, job, hpost⟩ := deliver_cases _ _ _ _
      · rwa [hsame]
      · rw [hpost]
        exact hc.put rfl

end Desk

/-- Whether a queue comes to have the given job under way, with the given hub, once it has taken in some
of the events that are kept for it, and what was seen of that job until then. -/
def Reaction.Meanwhile (r : Reaction) (s : Service) (j : Running) (h : Hub) (seen : List Effect) : Prop :=
  ∃ first before after p, (r.engine.queue s).running = some first ∧
    (r.engine.queue s).events = before ++ after ∧
    Running.takeAll s before first r.engine.hub = p ∧ p.standing = .running j ∧ p.hub = h ∧
      seen = (r.effects ++ p.effects).filter (·.job = j.ticket s)

/-- What is so before any of them is taken in. -/
theorem Reaction.meanwhile_of_running {r : Reaction} {s : Service} {j : Running}
    (h : (r.engine.queue s).running = some j) :
    r.Meanwhile s j r.engine.hub (r.effects.filter (·.job = j.ticket s)) :=
  ⟨j, [], _, _, h, rfl, rfl, rfl, rfl, by simp [Running.takeAll]⟩

namespace Engine

variable (config : Config) (link : Link) (clock : Instant) (inputs : List Input)

theorem charted_run : ((idle config link clock).deskAfter inputs).Charted := by
  refine (run_keeps (P := fun d => d.Sound ∧ d.Charted) (fun i d h => ⟨h.1.under i, ?_⟩)
    (fun _ _ _ h hs => ⟨h.1.step hs, h.2.step h.1 hs⟩) _ inputs ⟨sound_idle config link clock, ?_⟩).2
  · exact h.2.keep (by cases i <;> exact .refl _) fun _ _ hr => ⟨hr, rfl⟩
  · intro s r hr
    obtain _ | ⟨_ | _⟩ := s <;> cases hr

theorem kin_run : (idle config link clock).hub.Kin ((idle config link clock).run inputs).engine.hub :=
  run_keeps (P := fun d => (idle config link clock).hub.Kin d.hub)
    (fun i _ h => h.trans (by cases i <;> exact .refl _))
      (fun _ _ _ h hs => h.trans hs.kin) _ inputs (.refl _)

/-- Every job that is under way at some moment of a run has come there by a course. -/
theorem course_meanwhile {s : Service} {j : Running} {h : Hub} {seen : List Effect}
    (hm : ((idle config link clock).run inputs).Meanwhile s j h seen) :
    (idle config link clock).hub.Kin h ∧
      Course ((idle config link clock).hub.policy s) link.own
        (j.ticket s) j.activity.task seen j.activity := by
  obtain ⟨first, before, after, p, hrunning, _, rfl, hj, rfl, rfl⟩ := hm
  have hkin := kin_run config link clock inputs
  have hfirst : Course (((idle config link clock).run inputs).engine.hub.policy s)
      ((idle config link clock).run inputs).engine.hub.link.own (first.ticket s) first.activity.task _ _ :=
    charted_run config link clock inputs s first hrunning
  obtain ⟨hticket, hkin', hcourse⟩ := Running.course_takeAll before hfirst hj
  refine ⟨hkin.trans hkin', ?_⟩
  rw [hkin.1, hkin.2] at hcourse
  have hseen :
      (Running.takeAll s before first ((idle config link clock).run inputs).engine.hub).effects.filter
      (·.job = first.ticket s) = _ :=
    List.filter_eq_self.mpr fun x hx => decide_eq_true (Running.takeAll_effects before first _ x hx)
  rw [hticket, List.filter_append, hseen, hcourse.task_eq]
  exact hcourse

end Engine

end GroundLink
