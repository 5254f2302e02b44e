import GroundLink.Proofs.Strike
import GroundLink.Proofs.Withdrawal

/-! What a job leaves behind. Once a job has left its queue its number stands in no line again (`Desk.Gone`),
and messages and expiries that are still kept for it come to nothing: an engine does the same without them. So
a transfer that is called off is over and done with (`Engine.cancel_exact`). -/

namespace GroundLink

open Function Deed

/-- Whether an event is for the job of a number, whatever its queue is doing. -/
def Event.isFor (number : Nat) : Event → Bool
  | message job _ _ => job = some number
  | expiry job _ => job = number

/-- An engine that has forgotten the messages and expiries it keeps for a job. -/
def Engine.forget (e : Engine) (t : Ticket) : Engine :=
  e.withQueue ((e.queue t.service).withEvents ((e.queue t.service).events.filter fun x => !x.isFor t.number))
    t.service

/-- Whether two engines differ at most in the events they keep. -/
structure Engine.Alike (e e' : Engine) : Prop where
  hub : e'.hub = e.hub
  queue : ∀ s, ∃ events, e'.queue s = (e.queue s).withEvents events

/-- Whether a job was submitted and has left its queue. -/
structure Desk.Gone (t : Ticket) (d : Desk) : Prop where
  submitted : t.number < (d.queue t.service).submitted
  line : ∀ w ∈ (d.queue t.service).line, w.number ≠ t.number

namespace Desk.Gone

variable {t : Ticket} {d d' : Desk} {i : Input} {s : Service}

theorem of_sublist (h : Gone t d) (hline : ∀ s, (d'.queue s).line.Sublist (d.queue s).line)
    (hsubmitted : ∀ s, (d.queue s).submitted ≤ (d'.queue s).submitted) : Gone t d' where
  submitted := Nat.lt_of_lt_of_le h.submitted (hsubmitted t.service)
  line w hw := h.line w ((hline t.service).subset hw)

theorem put (h : Gone t d) {q : JobQueue} (hline : q.line.Sublist (d.queue s).line)
    (hsubmitted : (d.queue s).submitted ≤ q.submitted) : Gone t (d.put s q) :=
  h.of_sublist
    ((forall_update_iff _ fun s (q : JobQueue) => q.line.Sublist (d.queue s).line).mpr
      ⟨hline, fun _ _ => List.Sublist.refl _⟩)
    ((forall_update_iff _ fun s (q : JobQueue) => (d.queue s).submitted ≤ q.submitted).mpr
      ⟨hsubmitted, fun _ _ => Nat.le_refl _⟩)

/-- A job that joins a line has a number that was not handed out before. -/
theorem enrol (h : Gone t d) (task : Task) : Gone t (d.enrol s task) := by
  refine ⟨?_, fun w hw => ?_⟩
  · rw [enrol_queue]
    by_cases ht : t.service = s
    · rw [ht, update_self]
      exact Nat.lt_succ_of_lt (ht ▸ h.submitted)
    · rw [update_of_ne ht]
      exact h.submitted
  · rcases Lined.mem_line_enrol hw with hold | ⟨hs, rfl⟩
    · exact h.line w hold
    · exact Nat.ne_of_gt (hs ▸ h.submitted)

theorem step (h : Gone t d) (hs : Step i d d') : Gone t d' := by
  cases hs with
  | follow due => exact h.of_sublist due.line_sublist fun s => (due.submitted_after _ s).ge
  | skip running events stray => exact h.put (List.Sublist.refl _) (Nat.le_refl _)
  | clear idle => exact h.put (List.Sublist.refl _) (Nat.le_refl _)
  | tell owing => exact ⟨h.submitted, h.line⟩
  | enrol asked => exact h.enrol _
  | @turnAway s task asked busy =>
      have hput : Gone t (d.put s (d.queue s).counted) := h.put (List.Sublist.refl _) (Nat.le_succ _)
      exact ⟨hput.submitted, hput.line⟩
  | callOff waiting =>
      have hput := h.put (d.line_without waiting) (Nat.le_refl _)
      exact ⟨hput.submitted, hput.line⟩
  | @fire x armed due =>
      have hput : Gone t (d.post x.tag.service (.expiry x.tag.number x.cookie)) :=
        h.put (List.Sublist.refl _) (Nat.le_refl _)
      exact ⟨hput.submitted, hput.line⟩
  | deliver received subscribed =>
      obtain hsame | ⟨s, job, hpost⟩ := deliver_cases _ _ _ _
      · rwa [hsame]
      · rw [hpost]
        exact h.put (List.Sublist.refl _) (Nat.le_refl _)

/-- Nothing that a job heeds is for one that is gone. -/
theorem isFor_heeded {deeds : List Deed} {x : Taking} (h : Gone t d) (hact : Act i t.service d deeds d')
    (hx : .heeded x ∈ deeds) : x.event.isFor t.number = false := by
  cases hact with
  | @heed r e rest running events concerns =>
      cases List.mem_singleton.mp hx
      have hne : r.number ≠ t.number := h.line r.slot (JobQueue.slot_mem_line running)
      cases e with
      | message job header m =>
          rcases concerns with rfl | rfl
          · rfl
          · exact decide_eq_false fun hn => hne (Option.some.inj hn)
      | expiry job cookie => exact decide_eq_false fun hn => hne (concerns.1.symm.trans hn)
  | clear idle =>
      obtain ⟨e, -, he⟩ := List.mem_map.mp hx
      cases he
  | tell owing => exact absurd hx List.not_mem_nil
  | enrol asked => exact absurd hx List.not_mem_nil
  | _ => cases List.mem_singleton.mp hx

end Desk.Gone

namespace Engine

variable {e e' e'' : Engine} {t : Ticket}

/-- Whether a job was submitted to an engine and has left its queue. -/
def Gone (t : Ticket) (e : Engine) : Prop := (e.desk [] fun _ => []).Gone t

/-- What is gone stays so, and nothing that is left of it is heeded. -/
theorem gone_run (h : e.Gone t) (later : List Input) :
    (e.run later).engine.Gone t ∧ ∀ x, .heeded x ∈ e.log t.service later →
      x.event.isFor t.number = false := by
  have hnone : ∀ x, Deed.heeded x ∈ ([] : List Deed) → x.event.isFor t.number = false := fun x hx =>
    absurd hx List.not_mem_nil
  have hrun := logs_run (s := t.service)
    (P := fun d past => d.Gone t ∧ ∀ x, Deed.heeded x ∈ past → x.event.isFor t.number = false)
    (fun i d d' deeds past h hact => ⟨h.1.step hact.step, fun x hx =>
      (List.mem_append.mp hx).elim (h.2 x) (h.1.isFor_heeded hact)⟩)
    (fun i s d d' deeds past _ h hact => ⟨h.1.step hact.step, h.2⟩)
    (fun i d past h => ⟨⟨h.1.submitted, h.1.line⟩, h.2⟩) later e [] (fun _ => []) [] ⟨h, hnone⟩
  exact ⟨⟨hrun.1.submitted, hrun.1.line⟩, hrun.2⟩

theorem Alike.refl (e : Engine) : e.Alike e := ⟨rfl, fun _ => ⟨_, rfl⟩⟩

theorem Alike.trans (h : e.Alike e') (h' : e'.Alike e'') : e.Alike e'' := by
  refine ⟨h'.hub.trans h.hub, fun s => ?_⟩
  obtain ⟨events, hs⟩ := h.queue s
  obtain ⟨events', hs'⟩ := h'.queue s
  exact ⟨events', by rw [hs', hs]; rfl⟩

theorem Beside.alike {p : Service → Option Nat} {event : Service → Event} {f : Engine}
    (h : Beside p event f e) :
    f.Alike e := ⟨h.hub, fun s => ⟨_, h.queue s⟩⟩

/-- An engine without one of the events it keeps. -/
def strikeAt (e : Engine) (s : Service) (k : Nat) : Engine := e.withQueue ((e.queue s).strike (some k)) s

theorem strikeAt_run (h : e.Gone t) {k : Nat} {x : Event} (hx : (e.queue t.service).events[k]? = some x)
    (hfor : x.isFor t.number = true) (later : List Input) :
    ((e.strikeAt t.service k).run later).effects = (e.run later).effects ∧
      (e.run later).engine.Alike ((e.strikeAt t.service k).run later).engine := by
  have hbeside : Beside (update (fun _ => none) t.service (some k))
      (fun _ => x) e (e.strikeAt t.service k) := by
    refine ⟨hub_withQueue _ _ _, fun s => ?_, fun s n hn => ?_⟩
    · rw [strikeAt, queue_withQueue]
      by_cases hs : s = t.service
      · subst hs
        rw [update_self, update_self]
      · rw [update_of_ne hs, update_of_ne hs, JobQueue.strike_none]
    · by_cases hs : s = t.service
      · subst hs
        rw [update_self, Option.some.injEq] at hn
        exact hn ▸ hx
      · rw [update_of_ne hs] at hn
        cases hn
  obtain ⟨heffects, _, hafter⟩ := hbeside.run later fun s past y rest hlog hs hy => by
    by_cases hst : s = t.service
    · subst hst
      have hstray := (e.gone_run h later).2 y (hlog ▸ List.mem_append_right _ List.mem_cons_self)
      rw [hy, hfor] at hstray
      cases hstray
    · rw [update_of_ne hst] at hs
      cases hs
  exact ⟨heffects, hafter.alike⟩

theorem withQueue_self (e : Engine) (s : Service) : e.withQueue (e.queue s) s = e := by
  obtain _ | ⟨_ | _⟩ := s <;> rfl

theorem withQueue_withQueue (e : Engine) (q q' : JobQueue) (s : Service) :
    (e.withQueue q s).withQueue q' s = e.withQueue q' s := by
  obtain _ | ⟨_ | _⟩ := s <;> rfl

theorem queue_strikeAt {s : Service} {before after : List Event} {x : Event}
    (h : (e.queue s).events = before ++ x :: after) :
    (e.strikeAt s before.length).queue s = (e.queue s).withEvents (before ++ after) := by
  rw [strikeAt, queue_withQueue, update_self, JobQueue.strike, Option.elim_some, h,
    List.eraseIdx_append_of_length_le (Nat.le_refl _), Nat.sub_self]
  rfl

/-- What an engine keeps for a job that is gone has no effect. -/
theorem forget_run (h : e.Gone t) (later : List Input) :
    ((e.forget t).run later).effects = (e.run later).effects ∧
      (e.run later).engine.Alike ((e.forget t).run later).engine := by
  -- the events for the job are struck one after the other
  generalize hcount : (e.queue t.service).events.countP (Event.isFor t.number) = count
  induction count generalizing e with
  | zero =>
      have hkept : (e.queue t.service).events.filter (fun x => !x.isFor t.number) =
          (e.queue t.service).events :=
        List.filter_eq_self.mpr fun x hx => by simpa using List.countP_eq_zero.mp hcount x hx
      have hsame : e.forget t = e := by
        rw [forget, hkept, JobQueue.withEvents_self, withQueue_self]
      rw [hsame]
      exact ⟨rfl, .refl _⟩
  | succ count ih =>
      have hpos : 0 < (e.queue t.service).events.countP (Event.isFor t.number) := by
        rw [hcount]
        exact Nat.succ_pos count
      obtain ⟨x, hx, hfor⟩ := List.countP_pos_iff.mp hpos
      obtain ⟨before, after, hevents⟩ := List.append_of_mem hx
      have hqueue := queue_strikeAt hevents
      have hgone : (e.strikeAt t.service before.length).Gone t := by
        refine ⟨?_, ?_⟩
        · exact Nat.lt_of_lt_of_eq h.submitted (congrArg JobQueue.submitted hqueue).symm
        · exact fun w hw => h.line w (congrArg JobQueue.line hqueue ▸ hw)
      have hless :
          ((e.strikeAt t.service before.length).queue t.service).events.countP (Event.isFor t.number) =
            count := by
        rw [hevents, List.countP_append, List.countP_cons_of_pos hfor] at hcount
        rw [hqueue, JobQueue.withEvents_events, List.countP_append]
        omega
      have hforget : (e.strikeAt t.service before.length).forget t = e.forget t := by
        rw [forget, forget, hqueue, strikeAt, withQueue_withQueue, JobQueue.withEvents_events,
          JobQueue.withEvents_withEvents, hevents, List.filter_append, List.filter_append,
          List.filter_cons_of_neg (by simp [hfor])]
      have hget : (e.queue t.service).events[before.length]? = some x := by
        rw [hevents]
        simp
      obtain ⟨heffects, halike⟩ := strikeAt_run h hget hfor later
      obtain ⟨heffects', halike'⟩ := ih hgone hless
      rw [hforget] at heffects' halike'
      exact ⟨heffects'.trans heffects, halike.trans halike'⟩

end Engine

theorem JobQueue.number_ne_without {q : JobQueue} {number : Nat} {w : Waiting}
    (hw : w ∈ (q.without number).line) :
    w.number ≠ number := by
  rcases List.mem_append.mp hw with hw | hw
  · obtain ⟨r, hr, rfl⟩ := Option.map_eq_some_iff.mp (Option.mem_toList.mp hw)
    exact of_decide_eq_true (Option.filter_eq_some_iff.mp hr).2
  · exact of_decide_eq_true (List.mem_filter.mp hw).2

namespace Engine

variable {e : Engine}

/-- What calling off the transfer `t` comes to in an engine of which `past` was seen so far: whether it was
found, and what was done. -/
structure CancelsExactly (e : Engine) (past : List Effect) (side : Side) (number : Nat) (t : Transfer)
    (found : Bool) (r : Reaction) : Prop where
  found_iff : found = true ↔ number ∈ (e.queue (.mission side)).line.map (·.number)
  /-- The transfer goes with its timer and handlers and nothing else does. Its peer is
  told if it was under way. -/
  taken : found = true → r = ⟨e.without ⟨.mission side, number⟩ ((e.queue (.mission side)).word number t),
    e.hub.farewell ⟨.mission side, number⟩ ((e.queue (.mission side)).word number t)⟩
  untouched : found = false → r = ⟨e, []⟩
  /-- However it goes on, it was told once how the transfer ended, -/
  once : ∀ later, (past ++ r.effects ++ (r.engine.run later).effects).countP
    (·.settles ⟨.mission side, number⟩) = 1
  /-- it is not found again, -/
  lost : ∀ later, ((r.engine.run later).engine.cancel side number).1 = false
  /-- and what is still kept for it has no effect. -/
  forgotten : ∀ later, ((r.engine.forget ⟨.mission side, number⟩).run later).effects =
    (r.engine.run later).effects ∧
    (r.engine.run later).engine.Alike ((r.engine.forget ⟨.mission side, number⟩).run later).engine

theorem gone_without {side : Side} {number : Nat} {word : Option Message}
    (h : number < (e.queue (.mission side)).submitted) :
    (e.without ⟨.mission side, number⟩ word).Gone ⟨.mission side, number⟩ := by
  have hqueue : (e.without ⟨.mission side, number⟩ word).queue (.mission side) =
      (e.queue (.mission side)).without number := by
    rw [without, queue_withHub, queue_withQueue, update_self]
  refine ⟨?_, fun w hw => JobQueue.number_ne_without (congrArg JobQueue.line hqueue ▸ hw)⟩
  exact Nat.lt_of_lt_of_eq h (congrArg JobQueue.submitted hqueue).symm

/-- Of what is gone it was told once how it ended. -/
theorem told_of_gone (config : Config) (link : Link) (clock : Instant) (inputs : List Input) {t : Ticket}
    (h : ((idle config link clock).run inputs).engine.Gone t) :
    ((idle config link clock).run inputs).effects.countP (·.settles t) = 1 := by
  have honce := (accounted_run config link clock inputs).once t
  have hstanding : ((idle config link clock).deskAfter inputs).standing t = 0 :=
    List.countP_eq_zero.mpr fun w hw => by simpa using h.line w hw
  have howed : ((idle config link clock).deskAfter inputs).owed t = 0 := rfl
  rw [hstanding, howed, Nat.zero_add] at honce
  exact honce.trans (if_pos h.submitted)

/-- What follows once a transfer is gone, whether it was called off just now or had left its queue before. -/
theorem over_of_gone (config : Config) (link : Link) (clock : Instant) (inputs : List Input) {side : Side}
    {number : Nat}
    (h : (((idle config link clock).run inputs).engine.cancel side number).2.engine.Gone
      ⟨.mission side, number⟩) :
    let past := ((idle config link clock).run inputs).effects
    let r := (((idle config link clock).run inputs).engine.cancel side number).2
    (∀ later,
      (past ++ r.effects ++ (r.engine.run later).effects).countP (·.settles ⟨.mission side, number⟩) = 1) ∧
      (∀ later, ((r.engine.run later).engine.cancel side number).1 = false) ∧
        ∀ later, ((r.engine.forget ⟨.mission side, number⟩).run later).effects =
          (r.engine.run later).effects ∧
          (r.engine.run later).engine.Alike ((r.engine.forget ⟨.mission side, number⟩).run later).engine := by
  intro past r
  refine ⟨fun later => ?_, fun later => ?_, forget_run h⟩
  · have hrun : (idle config link clock).run (inputs ++ .cancel side number :: later) =
        ⟨(r.engine.run later).engine, past ++ r.effects ++ (r.engine.run later).effects⟩ := by
      rw [run_append, List.append_assoc]
      rfl
    have honce := told_of_gone config link clock (inputs ++ .cancel side number :: later)
      (by rw [hrun]; exact (gone_run h later).1)
    rwa [hrun] at honce
  · rw [cancel_absent (gone_run h later).1.line]

/-- Calling off is exact, whatever the engine has been through and whichever number of the
queue it is called with. -/
theorem cancel_exact (config : Config) (link : Link) (clock : Instant) (inputs : List Input) (side : Side)
    (number : Nat)
    (hnumber : number < (((idle config link clock).run inputs).engine.queue (.mission side)).submitted) :
    let r := (idle config link clock).run inputs
    ∃ t, (submitted inputs (.mission side))[number]? = some (.transfer t) ∧
      r.engine.CancelsExactly r.effects side number t (r.engine.cancel side number).1
        (r.engine.cancel side number).2 := by
  intro r
  have hs : (r.engine.desk r.effects (submitted inputs)).Sound := sound_run config link clock inputs
  have hasked : number < (submitted inputs (.mission side)).length :=
    hs.lined.counted (.mission side) ▸ hnumber
  have htask := List.getElem?_eq_getElem hasked
  obtain ⟨t, ht⟩ := transfer_submitted htask
  rw [ht] at htask
  refine ⟨t, htask, ?_⟩
  by_cases hline : number ∈ (r.engine.queue (.mission side)).line.map (·.number)
  · obtain ⟨w, hw, rfl⟩ := List.mem_map.mp hline
    have hwtask : w.task = .transfer t := Option.some.inj ((hs.lined.asked hw).symm.trans htask)
    have hcancel := cancel_found hs hw hwtask
    have hgone : (r.engine.cancel side w.number).2.engine.Gone ⟨.mission side, w.number⟩ := by
      rw [hcancel]
      exact gone_without hnumber
    obtain ⟨honce, hover, hforgotten⟩ := over_of_gone config link clock inputs hgone
    rw [hcancel] at honce hover hforgotten ⊢
    exact ⟨iff_of_true rfl hline, fun _ => rfl, nofun, honce, hover, hforgotten⟩
  · have hcancel := cancel_absent fun w hw hn => hline (List.mem_map.mpr ⟨w, hw, hn⟩)
    have hgone : (r.engine.cancel side number).2.engine.Gone ⟨.mission side, number⟩ := by
      rw [hcancel]
      exact ⟨hnumber, fun w hw hn => hline (List.mem_map.mpr ⟨w, hw, hn⟩)⟩
    obtain ⟨honce, hover, hforgotten⟩ := over_of_gone config link clock inputs hgone
    rw [hcancel] at honce hover hforgotten ⊢
    exact ⟨iff_of_false nofun hline, nofun, fun _ => rfl, honce, hover, hforgotten⟩

/-- A download under way with another behind it, and a count for it that was not taken in yet. -/
theorem cancel_exact_download :
    let download : Input := .transfer .client (.download ⟨⟨.pilotOf 1, .mission⟩, true⟩) .queue
    let count : Input := .receive ⟨.pilotOf 1, 0⟩ (.missionCount ⟨3, .pilotOf 255, .mission⟩)
    let inputs : List Input := [download, download, .tick, count]
    let r := (idle .default default 0).run inputs
    0 < (r.engine.queue (.mission .client)).submitted ∧
      ∃ t, (submitted inputs (.mission .client))[0]? = some (.transfer t) ∧
        r.engine.CancelsExactly r.effects .client 0 t (r.engine.cancel .client 0).1
          (r.engine.cancel .client 0).2 := by
  intro download count inputs r
  have hnumber : 0 < (r.engine.queue (.mission .client)).submitted := by decide +kernel
  exact ⟨hnumber, cancel_exact .default default 0 inputs .client 0 hnumber⟩

end Engine

end GroundLink
