import GroundLink.Proofs.Course
import GroundLink.Proofs.History

/-! The time a message gives. A message that gives a job's timer its span once more holds off the job's
next expiry until the whole timeout has passed (`Engine.refreshed_waits`). This is so as long as the timer
is armed when the message is taken in: after it has gone off the message comes too late, and the expiry
that waits behind it is taken in at once. -/

namespace GroundLink

open Function

/-- Whether a step gives the armed timer its span once more. -/
def Move.Extends {σ : Type} : Move σ → Prop
  | proceed .extend _ _ _ => True
  | _ => False

instance {σ : Type} : DecidablePred (Move.Extends : Move σ → Prop)
  | .ignore => inferInstanceAs (Decidable False)
  | .proceed .extend _ _ _ => inferInstanceAs (Decidable True)
  | .proceed (.restart _) _ _ _ => inferInstanceAs (Decidable False)
  | .finish _ _ _ => inferInstanceAs (Decidable False)

namespace Taking

/-- Whether what is taken in is a message that gives the job's timer its span once more. -/
def Refreshes (s : Service) (x : Taking) : Prop :=
  match x.event with
  | .message _ header m => (x.job.activity.onMessage (x.hub.setting s) header.sender m).Extends
  | .expiry _ _ => False

/-- Whether the job's timer is still armed. -/
def Ticking (x : Taking) : Prop := ∃ y ∈ x.hub.timers.armed, x.job.cookie = some y.cookie

/-- Whether what is taken in is that the time of the given job is up. -/
def Expires (x : Taking) (number : Nat) : Prop := x.event.isMessage = false ∧ x.job.number = number

/-- The end of the timeout that begins when the event is taken in. -/
def due (x : Taking) (timeout : Span) : Nat := x.hub.clock.toNat + timeout.micros

/-- Whether a job has the whole timeout from now on. -/
def Grants (s : Service) (timeout : Span) (x : Taking) : Prop :=
  x.Refreshes s ∧ x.Ticking ∧ x.due timeout < UInt64.size

instance (s : Service) : DecidablePred (Refreshes s)
  | ⟨job, hub, .message _ header m⟩ =>
    inferInstanceAs (Decidable (job.activity.onMessage (hub.setting s) header.sender m).Extends)
  | ⟨_, _, .expiry _ _⟩ => inferInstanceAs (Decidable False)

instance (x : Taking) : Decidable x.Ticking :=
  inferInstanceAs (Decidable (∃ y ∈ x.hub.timers.armed, x.job.cookie = some y.cookie))

instance (x : Taking) (number : Nat) : Decidable (x.Expires number) :=
  inferInstanceAs (Decidable (x.event.isMessage = false ∧ x.job.number = number))

end Taking

namespace Timers

variable {τ : Type}

theorem deadline_refresh {t : Timers τ} {now : Instant} {c : Cookie} {x : Timer τ}
    (hx : x ∈ (t.refresh now c).armed) (hc : x.cookie = c) :
    ∃ y ∈ t.armed, x.deadline = now.after y.span := by
  obtain ⟨y, hy, rfl⟩ := List.mem_map.mp hx
  refine ⟨y, hy, ?_⟩
  by_cases h : y.cookie = c
  · rw [if_pos h]
  · rw [if_neg h] at hc
    exact absurd hc h

/-- Whether a timer is in the table, possibly with an earlier deadline there. -/
def Lasts (t : Timers τ) (x : Timer τ) : Prop :=
  ∃ y ∈ t.armed, x.tag = y.tag ∧ x.span = y.span ∧ y.deadline.toNat ≤ x.deadline.toNat

theorem lasts_of_mem {t : Timers τ} {x : Timer τ} (hx : x ∈ t.armed) : t.Lasts x :=
  ⟨x, hx, rfl, rfl, Nat.le_refl _⟩

end Timers

theorem Instant.le_toNat_after {now : Instant} {span : Span} {n : Nat} (h : n ≤ now.toNat + span.micros)
    (hn : n < UInt64.size) : n ≤ (now.after span).toNat := by
  rw [toNat_after]
  omega

namespace Hub

variable {h : Hub} {t : Ticket} {c : Option Cookie} {w : Wait} {x : Timer Ticket}

theorem lasts_of_mem_disarm (hx : x ∈ (h.disarm c).timers.armed) : h.timers.Lasts x := by
  cases c with
  | none => exact Timers.lasts_of_mem hx
  | some c => exact Timers.lasts_of_mem (Timers.mem_remove.mp hx).1

/-- Timers are never set back. -/
theorem Punctual.lasts_refresh (hp : h.Punctual) (hx : x ∈ (h.refresh c).timers.armed) :
    h.timers.Lasts x := by
  cases c with
  | none => exact Timers.lasts_of_mem hx
  | some c =>
      obtain ⟨y, hy, _, htag, hspan, hold | hnew⟩ := Timers.mem_refresh hx
      · exact ⟨y, hy, htag, hspan, hold ▸ Nat.le_refl _⟩
      · refine ⟨y, hy, htag, hspan, ?_⟩
        rw [hnew]
        exact Instant.le_toNat_after (hp y hy) y.deadline.toNat_lt_size

theorem Punctual.lasts_await (hp : h.Punctual) (hx : x ∈ (h.await t c w).2.timers.armed) :
    h.timers.Lasts x ∨ ∃ span, w = .restart span ∧ x = ⟨h.timers.issued, h.clock.after span, span, t⟩ := by
  cases w with
  | restart span =>
      rcases List.mem_append.mp hx with hold | hnew
      · exact .inl (lasts_of_mem_disarm hold)
      · refine .inr ⟨span, rfl, (List.mem_singleton.mp hnew).trans ?_⟩
        cases c <;> rfl
  | extend => exact .inl (hp.lasts_refresh hx)

end Hub

namespace Running.Follows

variable {r r' : Running} {s : Service} {h : Hub} {move : Move Activity} {p : Progress}

/-- The timers after a step: those before, none of them set back, and the one it has taken. -/
theorem armed (hf : Follows r s h move p) (hp : h.Punctual) {x : Timer Ticket} (hx : x ∈ p.hub.timers.armed) :
    h.timers.Lasts x ∨ ∃ span report message a, move = .proceed (.restart span) report message a ∧
      x = ⟨h.timers.issued, h.clock.after span, span, r.ticket s⟩ := by
  cases hf with
  | ignored => exact .inl (Timers.lasts_of_mem hx)
  | waited wait report message activity taken =>
      rw [Hub.offered_timers] at hx
      refine (hp.lasts_await hx).imp_right ?_
      rintro ⟨span, rfl, hnew⟩
      exact ⟨span, _, _, _, rfl, hnew⟩
  | broken wait report m activity refused =>
      rw [Hub.retire_timers] at hx
      cases hc : (h.await (r.ticket s) r.cookie wait).1 with
      | none =>
          cases wait with
          | restart span => cases hc
          | extend =>
              rw [hc] at hx
              exact .inl (hp.lasts_refresh hx)
      | some c =>
          rw [hc] at hx
          refine (hp.lasts_await (Timers.mem_remove.mp hx).1).imp_right ?_
          rintro ⟨span, rfl, hnew⟩
          exact ⟨span, _, _, _, rfl, hnew⟩
  | finished message report outcome taken =>
      rw [Hub.retire_timers] at hx
      refine .inl ?_
      rw [← Hub.offered_timers h message]
      exact Hub.lasts_of_mem_disarm hx
  | failed m report outcome refused =>
      rw [Hub.retire_timers] at hx
      refine .inl ?_
      rw [← Hub.offered_timers h (some m)]
      exact Hub.lasts_of_mem_disarm hx

/-- A job that stays under way has kept its timer or has a new one. -/
theorem cookie (hf : Follows r s h move p) (hr : p.standing.running? = some r') :
    r'.cookie = r.cookie ∨ r'.cookie = some h.timers.issued := by
  cases hf with
  | ignored =>
      cases hr
      exact .inl rfl
  | waited wait report message activity taken =>
      cases hr
      cases wait with
      | restart span => cases hc : r.cookie <;> exact .inr rfl
      | extend => exact .inl rfl
  | broken wait report m activity refused => cases hr
  | finished message report outcome taken => cases hr
  | failed m report outcome refused => cases hr

end Running.Follows

namespace Desk

variable {i : Input} {d d' : Desk} {s : Service} {q : JobQueue} {r : Running} {h : Hub} {move : Move Activity}
  {timeout : Span}

/-- What an engine with a clock that does not go back keeps of its timers: no deadline is later than its
span from now, and no span is shorter than the timeout. -/
structure Poised (d : Desk) (timeout : Span) : Prop where
  sound : Sound d
  punctual : d.hub.Punctual
  policy : d.hub.timeout = timeout
  ample : ∀ x ∈ d.hub.timers.armed, timeout.micros ≤ x.span.micros

theorem Due.ample (due : Due d s q r h move) : move.Ample d.hub.timeout := by
  have hpolicy : (d.hub.setting s).policy.timeout = d.hub.timeout := by cases s <;> rfl
  rw [← hpolicy]
  cases due with
  | hear running events concerns => exact Activity.ample_onMessage _ _ _ _
  | expire running events own => exact Activity.ample_onTimeout _ _
  | start idle waiting => exact Task.ample_start _ _
  | cancel running => trivial

theorem Due.events_subset (due : Due d s q r h move) : q.events ⊆ (d.queue s).events := by
  cases due with
  | hear running events concerns => exact events ▸ List.subset_cons_self _ _
  | expire running events own => exact events ▸ List.subset_cons_self _ _
  | _ => exact List.Subset.refl _

theorem Due.punctual (due : Due d s q r h move) (hp : d.hub.Punctual) : h.Punctual := by
  intro x hx
  rw [due.timers] at hx
  rw [due.clock]
  exact hp x hx

theorem Step.timeout_eq (hs : Step i d d') : d'.hub.timeout = d.hub.timeout :=
  congrArg Policy.timeout (congrFun hs.kin.1 .commands)

theorem Poised.step (hd : Poised d timeout) (hs : Step i d d') : Poised d' timeout where
  sound := hd.sound.step hs
  punctual := punctual_step hd.punctual hs
  policy := hs.timeout_eq.trans hd.policy
  ample := by
    cases hs with
    | @follow s q r h move due =>
        intro x hx
        rcases (r.follow_follows s h move).armed (due.punctual hd.punctual) hx with
          ⟨y, hy, _, hspan, _⟩ | ⟨span, report, message, a, rfl, rfl⟩
        · rw [due.timers] at hy
          rw [hspan]
          exact hd.ample y hy
        · have hample := due.ample
          rwa [hd.policy] at hample
    | fire armed due => exact fun x hx => hd.ample x (Timers.mem_remove.mp hx).1
    | deliver received subscribed =>
        rw [deliver_hub]
        exact hd.ample
    | _ => exact hd.ample

theorem Poised.under (hd : Poised d timeout) (hle : d.hub.clock ≤ i.clock d.hub.clock) :
    Poised (d.under i) timeout :=
  ⟨hd.sound.under i, hd.punctual.mono rfl (UInt64.le_iff_toNat_le.mp hle), hd.policy, hd.ample⟩

/-- Whether the time of a job is not up before `due`: its timer, if one is armed, does not go off before,
and no expiry waits to be taken in earlier. -/
structure Spared (d : Desk) (timeout : Span) (t : Ticket) (due : Nat) : Prop where
  near : due ≤ d.hub.clock.toNat + timeout.micros
  /-- The job does not wait to be started. -/
  begun : t.number < (d.queue t.service).submitted ∧
    ∀ w ∈ (d.queue t.service).waiting.items, w.number ≠ t.number
  armed : ∀ x ∈ d.hub.timers.armed, x.tag = t → due ≤ x.deadline.toNat
  silent : d.hub.clock.toNat < due → ∀ r c, (d.queue t.service).running = some r → r.number = t.number →
    r.cookie = some c → .expiry r.number c ∉ (d.queue t.service).events

namespace Spared

variable {t : Ticket} {due : Nat}

theorem under (hsp : Spared d timeout t due) (hle : d.hub.clock.toNat ≤ (i.clock d.hub.clock).toNat) :
    Spared (d.under i) timeout t due :=
  ⟨hsp.near.trans (Nat.add_le_add_right hle _), hsp.begun, hsp.armed, fun hearly =>
    hsp.silent (Nat.lt_of_le_of_lt hle hearly)⟩

/-- What changes neither the job under way nor its timer. -/
theorem keep (hsp : Spared d timeout t due) (hclock : d'.hub.clock = d.hub.clock)
    (harmed : d'.hub.timers.armed ⊆ d.hub.timers.armed)
    (hsubmitted : (d.queue t.service).submitted ≤ (d'.queue t.service).submitted)
    (hwaiting : ∀ w ∈ (d'.queue t.service).waiting.items,
      w ∈ (d.queue t.service).waiting.items ∨ w.number = (d.queue t.service).submitted)
    (hrunning : (d'.queue t.service).running = (d.queue t.service).running)
    (hevents : ∀ c, .expiry t.number c ∈ (d'.queue t.service).events →
      .expiry t.number c ∈ (d.queue t.service).events ∨ due ≤ d.hub.clock.toNat) :
    Spared d' timeout t due where
  near := hclock ▸ hsp.near
  begun := by
    refine ⟨Nat.lt_of_lt_of_le hsp.begun.1 hsubmitted, fun w hw => ?_⟩
    rcases hwaiting w hw with hold | hnew
    · exact hsp.begun.2 w hold
    · rw [hnew]
      exact Nat.ne_of_gt hsp.begun.1
  armed x hx := hsp.armed x (harmed hx)
  silent hearly r c hr hn hc he := by
    rw [hclock] at hearly
    rw [hrunning] at hr
    rw [hn] at he
    rcases hevents c he with hold | hlate
    · exact hsp.silent hearly r c hr hn hc (hn ▸ hold)
    · omega

/-- What changes a queue but neither its job under way nor the expiries it is to hear of. -/
theorem put (hsp : Spared d timeout t due) {q : JobQueue} (hqueue : d'.queue = update d.queue s q)
    (hclock : d'.hub.clock = d.hub.clock) (harmed : d'.hub.timers.armed ⊆ d.hub.timers.armed)
    (hsubmitted : (d.queue s).submitted ≤ q.submitted)
    (hwaiting : ∀ w ∈ q.waiting.items, w ∈ (d.queue s).waiting.items ∨ w.number = (d.queue s).submitted)
    (hrunning : q.running = (d.queue s).running)
    (hevents : ∀ n c, .expiry n c ∈ q.events → .expiry n c ∈ (d.queue s).events) :
    Spared d' timeout t due := by
  have hupdate := fun (P : Service → JobQueue → Prop) (hs : P s q) (ht : ∀ t, P t (d.queue t)) =>
    (forall_update_iff d.queue P).mpr ⟨hs, fun t _ => ht t⟩ t.service
  rw [← hqueue] at hupdate
  refine hsp.keep hclock harmed ?_ ?_ ?_ ?_
  · exact hupdate (fun t q => (d.queue t).submitted ≤ q.submitted) hsubmitted fun _ => Nat.le_refl _
  · exact hupdate (fun t q => ∀ w ∈ q.waiting.items, w ∈ (d.queue t).waiting.items ∨
      w.number = (d.queue t).submitted)
      hwaiting fun _ _ => .inl
  · exact hupdate (fun t q => q.running = (d.queue t).running) hrunning fun _ => rfl
  · exact hupdate (fun t' q => ∀ c, .expiry t.number c ∈ q.events →
      .expiry t.number c ∈ (d.queue t').events ∨ due ≤ d.hub.clock.toNat)
      (fun c he => .inl (hevents _ c he)) fun _ _ => .inl

/-- A step of the job itself must not take a timer that is too short. -/
theorem follow (hsp : Spared d timeout t due) (hsound : Sound d) (hp : d.hub.Punctual)
    (hsize : due < UInt64.size) (hdue : Due d s q r h move)
    (hample : d.hub.clock.toNat < due → r.ticket s = t → move.Ample timeout) :
    Spared (d.after s q (r.follow s h move)) timeout t due := by
  have hf := r.follow_follows s h move
  have hclock : (d.after s q (r.follow s h move)).hub.clock = d.hub.clock := hf.clock.trans hdue.clock
  refine ⟨hclock ▸ hsp.near, ?_, fun x hx htag => ?_, fun hearly r' c hr' hn hc he => ?_⟩
  · rw [hdue.submitted_after]
    refine ⟨hsp.begun.1, fun w hw => hsp.begun.2 w ?_⟩
    by_cases hs : t.service = s
    · rw [hs] at hw ⊢
      exact hdue.waiting_subset (by simpa [after] using hw)
    · simpa [after, update_of_ne hs] using hw
  · rcases hf.armed (hdue.punctual hp) hx with ⟨y, hy, hsame, _, hle⟩ | ⟨span, report, message, a, rfl, rfl⟩
    · rw [hdue.timers] at hy
      exact (hsp.armed y hy (hsame.symm.trans htag)).trans hle
    · refine Instant.le_toNat_after ?_ hsize
      rw [hdue.clock]
      rcases Nat.lt_or_ge d.hub.clock.toNat due with hearly | hlate
      · exact hsp.near.trans (Nat.add_le_add_left (hample hearly htag) _)
      · exact hlate.trans (Nat.le_add_right _ _)
  · rw [hclock] at hearly
    by_cases hs : t.service = s
    · subst hs
      have hrunning : (r.follow t.service h move).standing.running? = some r' := by simpa [after] using hr'
      have hevents : .expiry r'.number c ∈ q.events := by simpa [after] using he
      obtain ⟨hnumber, _, _⟩ := hf.running hrunning
      have hold := hdue.events_subset hevents
      rcases hf.cookie hrunning with hkept | hfresh
      · cases hdue with
        | hear running events concerns =>
            rw [hnumber] at hold
            exact hsp.silent hearly r c running (hnumber ▸ hn) (hkept ▸ hc) hold
        | expire running events own =>
            rw [hkept] at hc
            cases hc
        | start idle waiting =>
            rw [hkept] at hc
            cases hc
        | cancel running =>
            rw [hnumber] at hevents
            exact hsp.silent hearly r c running (hnumber ▸ hn) (hkept ▸ hc) hevents
      · -- no expiry of a timer that is only now armed can be waiting
        rw [hc, hdue.timers, Option.some.injEq] at hfresh
        exact absurd (hsound.tended.fired _ _ _ hold).1 (hfresh ▸ Nat.lt_irrefl _)
    · have hsame : (d.after s q (r.follow s h move)).queue t.service = d.queue t.service :=
        update_of_ne hs _ _
      rw [hsame] at hr' he
      exact hsp.silent hearly r' c hr' hn hc he

theorem step (hsp : Spared d timeout t due) (hsound : Sound d) (hp : d.hub.Punctual)
    (hsize : due < UInt64.size) (hs : Step i d d')
    (hample : ∀ {s q r h move}, Due d s q r h move → d.hub.clock.toNat < due → r.ticket s = t →
      move.Ample timeout) : Spared d' timeout t due := by
  cases hs with
  | follow hdue => exact hsp.follow hsound hp hsize hdue (hample hdue)
  | skip running events stray =>
      exact hsp.put rfl rfl (List.Subset.refl _) (Nat.le_refl _) (fun _ => .inl) rfl
        fun n c he => events ▸ List.mem_cons_of_mem _ he
  | clear idle =>
      exact hsp.put rfl rfl (List.Subset.refl _) (Nat.le_refl _) (fun _ => .inl) rfl
        fun n c he => absurd he List.not_mem_nil
  | tell owing => exact ⟨hsp.near, hsp.begun, hsp.armed, hsp.silent⟩
  | @enrol s task asked =>
      refine hsp.put (d.enrol_queue s task) rfl (List.Subset.refl _) (Nat.le_succ _) (fun w hw => ?_) rfl
        fun n c => id
      rcases List.mem_append.mp hw with hold | hnew
      · exact .inl hold
      · exact .inr (by rw [List.mem_singleton.mp hnew])
  | turnAway asked busy =>
      exact hsp.put rfl rfl (List.Subset.refl _) (Nat.le_succ _) (fun _ => .inl) rfl fun n c => id
  | @callOff s w before after waiting =>
      have hless : before ++ after ⊆ (d.queue s).waiting.items := by
        rw [waiting]
        exact ((List.sublist_cons_self w after).append_left before).subset
      exact hsp.put rfl rfl (List.Subset.refl _) (Nat.le_refl _)
        (fun w hw => .inl (hless hw)) rfl fun n c => id
  | @fire x armed late =>
      have hless : (d.fire x).hub.timers.armed ⊆ d.hub.timers.armed := fun y hy => (Timers.mem_remove.mp hy).1
      have hqueue : ∀ t', ((d.fire x).queue t').running = (d.queue t').running ∧
          ((d.fire x).queue t').waiting = (d.queue t').waiting ∧
          ((d.fire x).queue t').submitted = (d.queue t').submitted :=
        (forall_update_iff _ fun t' (q : JobQueue) => q.running = (d.queue t').running ∧
          q.waiting = (d.queue t').waiting ∧ q.submitted = (d.queue t').submitted).mpr
            ⟨⟨rfl, rfl, rfl⟩, fun _ _ => ⟨rfl, rfl, rfl⟩⟩
      obtain ⟨hrunning, hwaiting, hsubmitted⟩ := hqueue t.service
      refine hsp.keep rfl hless (Nat.le_of_eq hsubmitted.symm) (fun w hw => .inl (hwaiting ▸ hw)) hrunning
        fun c he => ?_
      by_cases hs : t.service = x.tag.service
      · have hevents : .expiry t.number c ∈ (d.queue t.service).events ∨
            t.number = x.tag.number ∧ c = x.cookie := by
          rw [hs] at he ⊢
          simpa [Desk.fire, Desk.post, JobQueue.post] using he
        refine hevents.imp_right fun hown => ?_
        have htag : x.tag = t := by
          obtain ⟨service, number⟩ := t
          cases hs
          cases hown.1
          rfl
        exact (hsp.armed x armed htag).trans (UInt64.le_iff_toNat_le.mp late)
      · refine .inl ?_
        rwa [show (d.fire x).queue t.service = d.queue t.service from update_of_ne hs _ _] at he
  | deliver received subscribed =>
      obtain hsame | ⟨s, job, hpost⟩ := deliver_cases _ _ _ _
      · rwa [hsame]
      · rw [hpost]
        refine hsp.put rfl rfl (List.Subset.refl _) (Nat.le_refl _) (fun _ => .inl) rfl fun n c he => ?_
        simpa [JobQueue.post] using he

end Spared

/-- A message that gives an armed timer its span once more spares the job for the whole timeout. -/
theorem Poised.spared (hd : Poised d timeout) {e : Event} {rest : List Event}
    (hr : (d.queue s).running = some r) (he : (d.queue s).events = e :: rest) (hconcerns : e.Concerns r)
    (hrefreshes : Taking.Refreshes s ⟨r, d.hub, e⟩) (hticking : Taking.Ticking ⟨r, d.hub, e⟩)
    (hsize : Taking.due ⟨r, d.hub, e⟩ timeout < UInt64.size) :
    Spared (d.after s ((d.queue s).withEvents rest) (r.take s d.hub e)) timeout (r.ticket s)
      (Taking.due ⟨r, d.hub, e⟩ timeout) := by
  obtain ⟨y, hy, hcookie⟩ : ∃ y ∈ d.hub.timers.armed, r.cookie = some y.cookie := hticking
  have hsound := hd.sound
  have hd' : Poised (d.after s ((d.queue s).withEvents rest) (r.take s d.hub e)) timeout :=
    hd.step (i := .tick) (step_take hr he)
  cases e with
  | expiry job cookie => exact hrefreshes.elim
  | message job header m =>
      have hextends : (r.activity.onMessage (d.hub.setting s) header.sender m).Extends := hrefreshes
      rw [Running.take_heard hconcerns] at hd' ⊢
      generalize r.activity.onMessage (d.hub.setting s) header.sender m = move at hextends hd' ⊢
      obtain ⟨report, message, a, rfl⟩ : ∃ report message a, move = .proceed .extend report message a := by
        cases move with
        | proceed wait report message a =>
            cases wait with
            | extend => exact ⟨_, _, _, rfl⟩
            | restart span => exact hextends.elim
        | _ => exact hextends.elim
      have hf := r.follow_follows s d.hub (.proceed .extend report message a)
      generalize r.follow s d.hub (.proceed .extend report message a) = p at hf hd' ⊢
      have hqueue : (d.after s ((d.queue s).withEvents rest) p).queue s =
          ((d.queue s).withEvents rest).withRunning p.standing.running? := update_self _ _ _
      have hclock : (d.after s ((d.queue s).withEvents rest) p).hub.clock = d.hub.clock := hf.clock
      have hkept : ∀ r', p.standing.running? = some r' → r'.cookie = some y.cookie ∧
          p.hub.timers = d.hub.timers.refresh d.hub.clock y.cookie := by
        intro r' hr'
        cases hf with
        | waited wait report message activity taken =>
            cases hr'
            refine ⟨hcookie, ?_⟩
            rw [Hub.offered_timers, Hub.await, hcookie]
            rfl
        | broken wait report m activity refused => cases hr'
      refine ⟨hclock.symm ▸ Nat.le_refl _, ?_, fun x hx htag => ?_, fun _ r' c hr' _ hc he' => ?_⟩
      · show r.number < ((d.after s _ p).queue s).submitted ∧ ∀ w ∈ ((d.after s _ p).queue s).waiting.items, _
        rw [hqueue]
        exact ⟨hsound.lined.number_lt (JobQueue.slot_mem_line hr), fun w hw =>
          hsound.lined.number_ne (JobQueue.line_of_running hr) hw⟩
      · obtain ⟨r', hr', _, hc⟩ := hd'.sound.tended.owned x hx
        rw [htag] at hr'
        change ((d.after s _ p).queue s).running = some r' at hr'
        rw [hqueue] at hr'
        obtain ⟨hcookie', htimers⟩ := hkept r' hr'
        rw [hcookie', Option.some.injEq] at hc
        have hx : x ∈ (d.hub.timers.refresh d.hub.clock y.cookie).armed := htimers ▸ hx
        obtain ⟨z, hz, hdeadline⟩ := Timers.deadline_refresh hx hc.symm
        rw [hdeadline]
        exact Instant.le_toNat_after (Nat.add_le_add_left (hd.ample z hz) _) hsize
      · change ((d.after s _ p).queue s).running = some r' at hr'
        change _ ∈ ((d.after s _ p).queue s).events at he'
        rw [hqueue] at hr' he'
        obtain ⟨hcookie', _⟩ := hkept r' hr'
        rw [hcookie', Option.some.injEq] at hc
        have hold : .expiry r'.number c ∈ (d.queue s).events := by
          rw [he]
          exact List.mem_cons_of_mem _ he'
        exact (hsound.tended.fired _ _ _ hold).2 y hy hc

/-- What is so of a queue and of what its jobs acted on so far: whom a message gave more time is spared, and
was not held to be silent since. -/
structure Patient (s : Service) (timeout : Span) (d : Desk) (past : List Taking) : Prop where
  poised : Poised d timeout
  spared : ∀ x ∈ past, x.Grants s timeout → Spared d timeout (x.job.ticket s) (x.due timeout)
  waits : past.Pairwise fun x y => x.Grants s timeout → y.Expires x.job.number →
    x.due timeout ≤ y.hub.clock.toNat

namespace Patient

variable {past : List Taking}

theorem under (hd : Patient s timeout d past) (hle : d.hub.clock ≤ i.clock d.hub.clock) :
    Patient s timeout (d.under i) past where
  poised := hd.poised.under hle
  spared x hx hgrants := (hd.spared x hx hgrants).under (UInt64.le_iff_toNat_le.mp hle)
  waits := hd.waits

theorem step (hd : Patient s timeout d past) (hs : Step i d d') : Patient s timeout d' past where
  poised := hd.poised.step hs
  spared x hx hgrants := (hd.spared x hx hgrants).step hd.poised.sound hd.poised.punctual hgrants.2.2 hs
    fun hdue _ _ => hd.poised.policy ▸ hdue.ample
  waits := hd.waits

theorem take (hd : Patient s timeout d past) {e : Event} {rest : List Event}
    (hr : (d.queue s).running = some r) (he : (d.queue s).events = e :: rest) :
    Patient s timeout (d.after s ((d.queue s).withEvents rest) (r.take s d.hub e))
      (past ++ r.heeds d.hub e) := by
  have hstep := hd.step (i := .tick) (step_take hr he)
  rw [Running.heeds]
  by_cases hconcerns : e.Concerns r
  · rw [if_pos hconcerns]
    refine ⟨hstep.poised, fun x hx hgrants => ?_, ?_⟩
    · rcases List.mem_append.mp hx with hold | hnew
      · exact hstep.spared x hold hgrants
      · obtain rfl := List.mem_singleton.mp hnew
        exact hd.poised.spared hr he hconcerns hgrants.1 hgrants.2.1 hgrants.2.2
    · refine List.pairwise_append.mpr ⟨hd.waits, List.pairwise_singleton _ _,
        fun x hx y hy hgrants hexpires => ?_⟩
      obtain rfl := List.mem_singleton.mp hy
      -- an expiry that is taken in early would have been waiting although its job was spared
      refine Nat.le_of_not_lt fun hearly => ?_
      cases e with
      | message job header m => cases hexpires.1
      | expiry job cookie =>
          obtain ⟨rfl, hcookie⟩ := hconcerns
          refine (hd.spared x hx hgrants).silent hearly r cookie hr hexpires.2 hcookie ?_
          show _ ∈ (d.queue s).events
          rw [he]
          exact List.mem_cons_self
  · rw [if_neg hconcerns, List.append_nil]
    exact hstep

end Patient

end Desk

namespace Engine

/-- While the clock does not go back, a job to which a message has given more time has all of it:
unless its timer had gone off before the message was taken in, no expiry is taken in until the
timeout has passed once more. -/
theorem refreshed_waits (config : Config) (link : Link) (clock : Instant) (inputs : List Input) (s : Service)
    (hsteady : ClockSteady clock inputs) :
    ((idle config link clock).history s inputs).Pairwise fun x y =>
      x.Refreshes s → x.Ticking → x.due config.timeoutSpan < UInt64.size → y.Expires x.job.number →
        x.due config.timeoutSpan ≤ y.hub.clock.toNat := by
  have hidle : Desk.Patient s config.timeoutSpan ((idle config link clock).desk [] fun _ => []) [] :=
    { poised := ⟨sound_idle config link clock, fun x hx => absurd hx List.not_mem_nil, rfl,
        fun x hx => absurd hx List.not_mem_nil⟩
      spared := fun x hx => absurd hx List.not_mem_nil
      waits := .nil }
  obtain ⟨d, hd⟩ := keeps_history (P := Desk.Patient s config.timeoutSpan) (fun _ _ _ _ h hs => h.step hs)
    (fun _ _ _ _ _ hr he h => h.take hr he)
      (fun _ _ _ hle h => h.under hle) inputs (idle config link clock) []
    (fun _ => []) [] hsteady hidle
  exact hd.waits.imp fun h hrefreshes hticking hsize => h ⟨hrefreshes, hticking, hsize⟩

/-- A download whose list is announced after the given time; then it is looked after. -/
def announced (us : UInt64) : List Input :=
  [.transfer .client (.download ⟨⟨.pilotOf 1, .mission⟩, false⟩) .queue, .tick, .advance us,
    .receive ⟨.pilotOf 1, 0⟩ (.missionCount ⟨2, Config.default.own, .mission⟩), .tick]

/-- A list announced before the half second is over gives another half second. -/
theorem refreshed_waits_announced :
    let inputs := announced 400000 ++ [.advance 400000, .tick, .advance 100000, .tick]
    let history := (idle .default default 0).history (.mission .client) inputs
    ClockSteady 0 inputs ∧
      history.map
        (fun x => (x.hub.clock, decide (x.Refreshes (.mission .client) ∧ x.Ticking), decide (x.Expires 0))) =
        [(400000, true, false), (900000, false, true)] ∧
      history.Pairwise fun x y =>
        x.Refreshes (.mission .client) → x.Ticking → x.due Config.default.timeoutSpan < UInt64.size →
          y.Expires x.job.number → x.due Config.default.timeoutSpan ≤ y.hub.clock.toNat := by
  intro inputs history
  have hsteady : ClockSteady 0 inputs := by
    refine ⟨?_, ?_, ?_, ?_, ?_, ?_, ?_, ?_, ?_, trivial⟩ <;> decide
  exact ⟨hsteady, by decide +kernel, refreshed_waits .default default 0 inputs (.mission .client) hsteady⟩

/-- One that is announced at the very end comes too late, although it is taken in before the expiry: the
download asks for the first item and times out in the same look. -/
theorem late_refresh_times_out :
    let e := idle { Config.default with missionRetries := 1 } default 0
    let inputs := announced 500000
    let job : Ticket := ⟨.mission .client, 0⟩
    ClockSteady 0 inputs ∧
      (¬(e.history (.mission .client) inputs).Pairwise fun x y =>
        x.Refreshes (.mission .client) → x.due Config.default.timeoutSpan < UInt64.size →
          y.Expires x.job.number →
          x.due Config.default.timeoutSpan ≤ y.hub.clock.toNat) ∧
      (e.run inputs).effects.drop 1 =
        [.sent job (.missionRequestInt ⟨0, .pilotOf 1, .mission⟩), .result job (.failed .timeout)] := by
  intro e inputs job
  have hsteady : ClockSteady 0 inputs := by
    refine ⟨?_, ?_, ?_, ?_, ?_, trivial⟩ <;> decide
  exact ⟨hsteady, by decide +kernel, by decide +kernel⟩

end Engine

end GroundLink
