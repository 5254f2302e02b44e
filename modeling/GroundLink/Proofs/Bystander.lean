import GroundLink.Proofs.View

/-! What the other queues do. Whatever another queue does, or is done to it, a queue's view of the engine
stays as it is: the timers and handlers that come and go are never its own, as long as the link takes
messages or not whatever was sent before (`Desk.Sane`). -/

namespace GroundLink

open Function

/-- Whether an input leaves a link that takes a message or not whatever was sent before. -/
def Input.Steady : Input → Prop
  | accept acceptance => acceptance.next = acceptance
  | _ => True

namespace Desk

variable {i : Input} {d d' : Desk} {s t : Service} {q : JobQueue} {r : Running} {h : Hub}
    {move : Move Activity}

theorem Sound.cookie_iff (hs : Sound d) (hr : (d.queue s).running = some r) {x : Timer Ticket}
    (hx : x ∈ d.hub.timers.armed) : r.cookie = some x.cookie ↔ x.tag.service = s := by
  constructor
  · intro hc
    obtain ⟨c, hc', ⟨y, hy, hyc, htag⟩ | hexpired⟩ := hs.tended.awaited s r hr
    · rw [hc, Option.some.injEq] at hc'
      rw [hs.tended.eq_of_cookie hx hy (hc'.trans hyc.symm), htag]
      rfl
    · rw [hc, Option.some.injEq] at hc'
      exact absurd hc' ((hs.tended.fired _ _ _ hexpired).2 x hx)
  · rintro rfl
    obtain ⟨r', hr', _, hc⟩ := hs.tended.owned x hx
    rw [hr, Option.some.injEq] at hr'
    exact hr' ▸ hc

/-- The timer a job goes by in a step is the one that its queue has armed, if it has one. -/
theorem Due.cookie_iff (hs : Sound d) (due : Due d s q r h move) {x : Timer Ticket}
    (hx : x ∈ h.timers.armed) :
    r.cookie = some x.cookie ↔ x.tag.service = s := by
  rw [due.timers] at hx
  cases due with
  | hear running events concerns => exact hs.cookie_iff running hx
  | @expire r cookie rest running events own =>
      refine ⟨fun hnone => (by cases hnone), fun hsame => ?_⟩
      have hc := (hs.cookie_iff running hx).mpr hsame
      have hexpired : .expiry r.number cookie ∈ (d.queue s).events := events ▸ List.mem_cons_self
      rw [own, Option.some.injEq] at hc
      exact absurd hc.symm ((hs.tended.fired _ _ _ hexpired).2 x hx)
  | start idle waiting =>
      refine ⟨fun hnone => (by cases hnone), fun hsame => ?_⟩
      obtain ⟨r, hr, _⟩ := hs.tended.owned x hx
      rw [hsame, idle] at hr
      cases hr
  | cancel running => exact hs.cookie_iff running hx

/-- The handlers of a job that makes a step are those of its queue, the one for commands apart. -/
theorem Due.owner_iff (hs : Sound d) (due : Due d s q r h move) {x : Handler Kind Subscriber}
    (hx : x ∈ h.handlers.entries) : x.owner = r.owner ↔ x.action.service = s ∧ x.action ≠ .commands := by
  have hline := due.mem_line
  rcases List.mem_cons.mp ((due.subscribed hs.subscribed).mem_iff.mp hx) with rfl | hx
  · refine ⟨fun howner => ?_, fun h => absurd rfl h.2⟩
    exact absurd howner (Nat.ne_of_lt (hs.lined.named s _ hline).1)
  · rcases List.mem_append.mp hx with hown | hother
    · obtain ⟨kind, _, rfl⟩ := List.mem_map.mp hown
      exact ⟨fun _ => ⟨rfl, fun h => by cases h⟩, fun _ => rfl⟩
    · obtain ⟨t, ht, hx⟩ := mem_handlersBut hother
      obtain ⟨r', hr', howner, system, haction⟩ := JobQueue.owner_of_mem_handlers hx
      constructor
      · intro hsame
        exact absurd (hs.lined.apart t s _ (JobQueue.slot_mem_line hr') _ hline
          (howner.symm.trans hsame)).1 ht
      · rintro ⟨hservice, _⟩
        rw [haction] at hservice
        exact absurd hservice ht

theorem Due.foreign (hs : Sound d) (due : Due d t q r h move) (ht : t ≠ s) : h.Foreign s r.cookie :=
  fun _ hx hc hsame => ht (((due.cookie_iff hs hx).mp hc).symm.trans hsame)

theorem Due.face (due : Due d t q r h move) (ht : t ≠ s) : h.face s = d.hub.face s := by
  cases due with
  | @start w rest idle waiting =>
      simp [Waiting.subscribe, Hub.face, Handlers.ears_registerAll, Subscriber.service, ht]
  | _ => rfl

/-- A step of another queue's job. -/
theorem Due.face_other (hs : Sound d) (hlink : d.hub.link.offered = d.hub.link) (due : Due d t q r h move)
    (ht : t ≠ s) : (r.follow t h move).hub.face s = d.hub.face s := by
  have hforeign := due.foreign hs ht
  have hoffered : ∀ h' : Hub, h'.link = d.hub.link → ∀ m, (h'.offered m).face s = h'.face s := by
    intro h' hsame m
    exact Hub.face_of_link (by rw [hsame, hlink]) m
  have howner : ∀ x ∈ h.handlers.entries, x.owner = r.owner → x.action.service ≠ s := by
    intro x hx hx' hsame
    exact ht (((due.owner_iff hs hx).mp hx').1.symm.trans hsame)
  rw [← due.face ht]
  have hf := r.follow_follows t h move
  generalize r.follow t h move = p at hf
  have hretire : ∀ m, ((h.offered m).retire r.owner r.cookie).face s = h.face s := by
    intro m
    rw [← hoffered h due.link m]
    refine Hub.Foreign.retire (fun x hx => ?_) fun x hx => ?_
    · rw [Hub.offered_timers] at hx
      exact hforeign x hx
    · rw [Hub.offered_handlers] at hx
      exact howner x hx
  cases hf with
  | ignored => rfl
  | waited wait report message activity taken =>
      rw [hoffered _ (by rw [Hub.await_link, due.link]), hforeign.await ht]
  | broken wait report m activity refused =>
      have hissued : ∀ x ∈ h.timers.armed, x.cookie < h.timers.issued := by
        rw [due.timers]
        exact hs.tended.issued
      have hawaited := hforeign.awaited (t := r.ticket t) ht hissued wait
      have hlink' : (h.await (r.ticket t) r.cookie wait).2.link = d.hub.link := by
        rw [Hub.await_link, due.link]
      rw [← hforeign.await (t := r.ticket t) ht wait, ← hoffered _ hlink' (some m)]
      refine Hub.Foreign.retire (fun x hx => ?_) fun x hx => ?_
      · rw [Hub.offered_timers] at hx
        exact hawaited x hx
      · rw [Hub.offered_handlers, Hub.await_handlers] at hx
        exact howner x hx
  | finished message report outcome taken => exact hretire message
  | failed m report outcome refused => exact hretire (some m)

theorem view_eq (hqueue : d'.queue s = d.queue s) (hface : d'.hub.face s = d.hub.face s)
    (howing : d'.owing.filter (·.1.service = s) = d.owing.filter (·.1.service = s))
    (heffects : d'.effects.filter (·.job.service = s) = d.effects.filter (·.job.service = s)) :
    d'.view s = d.view s := by
  simp only [view, hqueue, hface, howing, heffects]

theorem view_put_other (ht : t ≠ s) (q : JobQueue) : (d.put t q).view s = d.view s :=
  view_eq (update_of_ne ht.symm _ _) rfl rfl rfl

theorem filter_append_other {α : Type} {p : α → Bool} {l l' : List α} (h : ∀ x ∈ l', p x = false) :
    (l ++ l').filter p = l.filter p := by
  have hnone : l'.filter p = [] := List.filter_eq_nil_iff.mpr fun x hx => by simp [h x hx]
  rw [List.filter_append, hnone, List.append_nil]

/-- What is so of a desk under a link that takes a message or not whatever was sent before. -/
structure Sane (d : Desk) : Prop where
  sound : Sound d
  steady : d.hub.link.offered = d.hub.link

theorem Step.link (hs : Step i d d') (hlink : d.hub.link.offered = d.hub.link) :
    d'.hub.link = d.hub.link := by
  cases hs with
  | @follow s q r h move due =>
      have hsame : h.link.offered = h.link := by rw [due.link, hlink]
      exact (congrArg Hub.link ((r.follow_follows s h move).around hsame)).trans due.link
  | callOff waiting => rfl
  | deliver received subscribed =>
      rw [deliver_hub]
  | _ => rfl

theorem Sane.under (hd : Sane d) (hi : i.Steady) : Sane (d.under i) where
  sound := hd.sound.under i
  steady := by
    have hnow : d.hub.link.acceptance.next = d.hub.link.acceptance := congrArg Link.acceptance hd.steady
    have hthen : (i.link d.hub.link).acceptance.next = (i.link d.hub.link).acceptance := by
      cases i with
      | accept acceptance => exact hi
      | _ => exact hnow
    show (i.link d.hub.link).offered = i.link d.hub.link
    rw [Link.offered, hthen]

theorem Sane.step (hd : Sane d) (hs : Step i d d') : Sane d' where
  sound := hd.sound.step hs
  steady := by rw [hs.link hd.steady, hd.steady]

theorem Due.view_other (hd : Sane d) (due : Due d t q r h move) (ht : t ≠ s) :
    (d.after t q (r.follow t h move)).view s = d.view s := by
  have hf := r.follow_follows t h move
  refine view_eq (update_of_ne ht.symm _ _) (due.face_other hd.sound hd.steady ht) ?_ ?_
  · refine filter_append_other fun x hx => ?_
    rcases hf.standing with ⟨r', hr', _⟩ | ⟨o, ho⟩
    · rw [hr'] at hx
      exact absurd hx List.not_mem_nil
    · rw [ho] at hx
      obtain rfl := List.mem_singleton.mp hx
      exact decide_eq_false ht
  · refine filter_append_other fun e he => ?_
    rw [(hf.effects he).1]
    exact decide_eq_false ht

/-- Whether all outcomes that are still to be told are those of one queue. -/
def Sole (t : Service) (d : Desk) : Prop := ∀ x ∈ d.owing, x.1.service = t

theorem sole_of_owing (ho : d.owing = []) : Sole t d := fun _ hx => absurd (ho ▸ hx) List.not_mem_nil

theorem Sole.after (hd : Sole t d) (q : JobQueue) (p : Progress) : Sole t (d.after t q p) := by
  intro x hx
  rcases List.mem_append.mp hx with hold | hnew
  · exact hd x hold
  · cases hp : p.standing with
    | running r =>
        rw [hp] at hnew
        exact absurd hnew List.not_mem_nil
    | ended e =>
        rw [hp] at hnew
        rw [List.mem_singleton.mp hnew]
        rfl

theorem WorkStep.sole (hd : Sole t d) (hs : WorkStep t d d') : Sole t d' := by
  cases hs with
  | take running events => exact hd.after _ _
  | clear idle events => exact hd
  | start idle events waiting => exact hd.after _ _
  | tell rested owing => exact fun x hx => hd x (owing ▸ List.mem_cons_of_mem _ hx)

theorem WorkStep.view_other (hd : Sane d) (hsole : Sole t d) (ht : t ≠ s) (hs : WorkStep t d d') :
    d'.view s = d.view s := by
  cases hs with
  | @take r e rest running events =>
      have htakes := r.take_takes t d.hub e
      generalize r.take t d.hub e = p at htakes
      cases htakes with
      | stray hc =>
          rw [after_running d t ((d.queue t).withEvents rest) running]
          exact view_put_other ht _
      | heard hc => exact Due.view_other hd (.hear running events hc) ht
      | expired hown => exact Due.view_other hd (.expire running events hown) ht
  | clear idle events => exact view_put_other ht _
  | start idle events waiting => exact Due.view_other hd (.start idle waiting) ht
  | @tell x o rest rested owing =>
      have hx : x.service = t := hsole (x, o) (owing ▸ List.mem_cons_self)
      have hne : x.service ≠ s := fun h => ht (hx.symm.trans h)
      refine view_eq rfl rfl ?_ ?_
      · rw [owing]
        simp [Desk.tell, hne]
      · exact filter_append_other fun e he => by simp [List.mem_singleton.mp he, Effect.job, hne]

theorem Sane.works (hd : Sane d) (hworks : Works t d d') : Sane d' :=
  keeps_works (fun _ _ h hs => h.step (i := .tick) hs.step) hd hworks

theorem Sole.works (hd : Sole t d) (hworks : Works t d d') : Sole t d' :=
  keeps_works (fun _ _ h hs => hs.sole h) hd hworks

theorem Works.view_other (hd : Sane d) (hsole : Sole t d) (ht : t ≠ s) (hworks : Works t d d') :
    d'.view s = d.view s := by
  induction hworks with
  | refl => rfl
  | tail hworks hlast ih => exact (hlast.view_other (hd.works hworks) (hsole.works hworks) ht).trans ih

theorem alarms_remove_cookie (hd : Sound d) {x : Timer Ticket} (hx : x ∈ d.hub.timers.armed) :
    (d.hub.timers.remove x.cookie).alarms s = if x.tag.service = s then [] else d.hub.timers.alarms s := by
  by_cases hs : x.tag.service = s
  · rw [if_pos hs]
    obtain ⟨r, hr, _, hc⟩ := hd.tended.owned x hx
    rw [hs] at hr
    refine Timers.alarms_eq_nil fun y hy hys => ?_
    obtain ⟨hy, hne⟩ := Timers.mem_remove.mp hy
    have hc' := (hd.cookie_iff hr hy).mpr hys
    exact hne (Option.some.inj (hc'.symm.trans hc))
  · rw [if_neg hs]
    exact Timers.alarms_remove_other fun y hy hc => hd.tended.eq_of_cookie hy hx hc ▸ hs

theorem view_fire_other (hd : Sane d) {x : Timer Ticket} (hx : x ∈ d.hub.timers.armed)
    (hs : x.tag.service ≠ s) :
    (d.fire x).view s = d.view s := by
  refine view_eq (update_of_ne hs.symm _ _) ?_ rfl rfl
  have halarms := alarms_remove_cookie (s := s) hd.sound hx
  rw [if_neg hs] at halarms
  simp only [Desk.fire, Hub.face, halarms]

theorem view_deliver_other (header : Header) (m : Message) {x : Subscriber} (hs : x.service ≠ s) :
    (d.deliver header m x).view s = d.view s := by
  cases x with
  | commands => exact view_put_other hs _
  | job ticket system =>
      rw [deliver]
      split
      · exact view_put_other hs _
      · rfl

/-- Work of another queue, or something done to it, that is seen of its own jobs only. -/
theorem view_turned_other {x : Turn} (ht : t ≠ s) (hface : x.hub.face s = d.hub.face s)
    (heffects : ∀ e ∈ x.effects, e.job.service = t) : (d.turned t x).view s = d.view s :=
  view_eq (update_of_ne ht.symm _ _) hface rfl
    (filter_append_other fun e he => decide_eq_false fun h => ht ((heffects e he).symm.trans h))

theorem mem_results {e : Effect} {ended : List Ended} (he : e ∈ JobQueue.results t ended) :
    e.job.service = t := by
  obtain ⟨x, _, rfl⟩ := List.mem_map.mp he
  rfl

theorem view_submit_other (ht : t ≠ s) (task : Task) (admission : Admission) :
    (d.turned t ((d.queue t).submit t d.hub task admission)).view s = d.view s := by
  rw [JobQueue.submit]
  split
  · exact view_turned_other ht rfl fun e he => absurd he List.not_mem_nil
  · refine view_turned_other ht rfl fun e he => ?_
    rw [List.mem_singleton.mp he]
    rfl

/-- A job that waits has no handlers that could go with it. -/
theorem face_callOff (hd : Sane d) {w : Waiting} (hw : w ∈ (d.queue t).waiting.items) :
    (d.hub.retire w.owner none).face s = d.hub.face s :=
  Hub.Foreign.retire (fun _ _ h => by cases h) fun _ hx howner =>
    absurd howner (hd.sound.subscribed.ne_waiting hd.sound.lined hw hx).1

theorem view_cancelWaiting_other (hd : Sane d) (ht : t ≠ s) (number : Nat) :
    (d.turned t ((d.queue t).cancelWaiting t d.hub number).2).view s = d.view s := by
  rw [JobQueue.cancelWaiting]
  cases hw : (d.queue t).waiting.removeFirst? (·.number = number) with
  | none => exact view_turned_other ht rfl fun e he => absurd he List.not_mem_nil
  | some found =>
      obtain ⟨⟨w, rest⟩, hf, rfl⟩ := Option.map_eq_some_iff.mp hw
      exact view_turned_other ht (face_callOff hd (Fifo.mem_of_takeFirst? hf)) fun e he => mem_results he

theorem view_cancel_other (hd : Sane d) (ht : t ≠ s) (number : Nat) :
    (d.turned t ((d.queue t).cancel t d.hub number).2).view s = d.view s := by
  rw [JobQueue.cancel]
  cases hr : (d.queue t).running with
  | none => exact view_cancelWaiting_other hd ht number
  | some r =>
      simp only
      split
      · have due : Due d t _ r d.hub _ := .cancel hr
        have hface : (r.cancel t d.hub).hub.face s = d.hub.face s := due.face_other hd.sound hd.steady ht
        have heffects : ∀ e ∈ (r.cancel t d.hub).effects, e.job.service = t := fun e he =>
          congrArg Ticket.service (Running.Follows.effects (Running.follow_follows _ _ _ _) he).1
        cases hp : (r.cancel t d.hub).standing with
        | running r' => exact view_turned_other ht hface heffects
        | ended x =>
            refine view_turned_other ht hface fun e he => ?_
            exact (List.mem_append.mp he).elim (heffects e) mem_results
      · exact view_cancelWaiting_other hd ht number

end Desk

end GroundLink
