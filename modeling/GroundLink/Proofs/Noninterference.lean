import GroundLink.Proofs.Lockstep

/-! The queues of an engine do not interfere. What is submitted to other queues or called off there changes
nothing of the view that a queue has of an engine (`Engine.view_step_other`), and everything else turns two
engines of which the queue has the same view into two such (`Engine.view_step_own`). So a queue behaves in
every run as if the others had never been asked for anything (`Engine.undisturbed`). -/

namespace GroundLink

open Function Relation

namespace Desk

variable {i : Input} {d d' D D' : Desk} {s t : Service} {x x' : Timer Ticket}

theorem view_post (d : Desk) (s : Service) (e : Event) :
    (d.post s e).view s = { d.view s with events := (d.view s).events ++ [e.sight (d.queue s).running] } := by
  simp [view, post, put, JobQueue.post]

theorem sight_of_view (hview : d.view s = d'.view s) (job : Option Nat) (header : Header) (m : Message) :
    Event.sight (d.queue s).running (.message job header m) =
      Event.sight (d'.queue s).running (.message job header m) := by
  cases hr : (d.queue s).running with
  | none => rw [idle_of_view hview hr]
  | some r =>
      cases hr' : (d'.queue s).running with
      | none => cases (idle_of_view hview.symm hr').symm.trans hr
      | some r' =>
          have hsame : Event.Concerns r (.message job header m) ↔
              Event.Concerns r' (.message job header m) := by
            simp only [Event.Concerns, (running_of_view hview hr hr').1]
          simp [Event.sight, hsame]

theorem view_deliver_own (hview : d.view s = d'.view s) (header : Header) (m : Message) {x : Subscriber}
    (hx : x.service = s) : (d.deliver header m x).view s = (d'.deliver header m x).view s := by
  have hpost : ∀ job, (d.post s (.message job header m)).view s =
      (d'.post s (.message job header m)).view s := by
    intro job
    rw [view_post, view_post, hview, sight_of_view hview]
  subst hx
  cases x with
  | commands => exact hpost none
  | job ticket system =>
      rw [deliver, deliver]
      split
      · exact hpost (some ticket.number)
      · exact hview

/-- What is delivered to other queues is not seen. -/
theorem view_deliverAll (header : Header) (m : Message) (subscribers : List Subscriber) :
    ∀ d d' : Desk, d.view s = d'.view s →
      (subscribers.foldl (fun d x => d.deliver header m x) d).view s =
        ((subscribers.filter (·.service = s)).foldl (fun d x => d.deliver header m x) d').view s := by
  induction subscribers with
  | nil => exact fun _ _ hview => hview
  | cons x rest ih =>
      intro d d' hview
      by_cases hx : x.service = s
      · rw [List.filter_cons_of_pos (by simp [hx])]
        exact ih _ _ (view_deliver_own hview header m hx)
      · rw [List.filter_cons_of_neg (by simp [hx])]
        exact ih _ _ ((view_deliver_other header m hx).trans hview)

theorem matching_of_face (hface : d.hub.face s = d'.hub.face s) (kind : Kind) :
    (d.hub.handlers.matching kind).filter (·.service = s) =
      (d'.hub.handlers.matching kind).filter (·.service = s) := by
  have hears : ∀ t : Handlers Kind Subscriber, (t.matching kind).filter (·.service = s) =
      ((t.ears s).filter (·.1 = kind)).map (·.2) := by
    intro t
    simp [Handlers.matching, Handlers.ears, List.filter_map, List.filter_filter, Function.comp_def,
      Bool.and_comm]
  rw [hears, hears]
  exact congrArg (fun f : Face => (f.ears.filter (·.1 = kind)).map (·.2)) hface

theorem view_receive_own (hview : d.view s = d'.view s) (header : Header) (m : Message) :
    ((d.hub.handlers.matching m.kind).foldl (fun d x => d.deliver header m x) d).view s =
      ((d'.hub.handlers.matching m.kind).foldl (fun d x => d.deliver header m x) d').view s := by
  have hdelivered' := view_deliverAll (s := s) header m (d'.hub.handlers.matching m.kind) d' d' rfl
  rw [view_deliverAll header m _ d d' hview, matching_of_face (congrArg View.face hview), hdelivered']

section Timers

theorem Sane.eq_of_service (hd : Sane d) (hx : x ∈ d.hub.timers.armed) (hx' : x' ∈ d.hub.timers.armed)
    (hs : x.tag.service = x'.tag.service) : x = x' := by
  obtain ⟨r, hr, _, hc⟩ := hd.sound.tended.owned x hx
  rw [hs] at hr
  have hc' := (hd.sound.cookie_iff hr hx').mpr rfl
  exact hd.sound.tended.eq_of_cookie hx hx' (Option.some.inj (hc.symm.trans hc'))

/-- A timer that fires is that of the job under way, which is to hear of it. -/
theorem view_fire (hd : Sane d) (hx : x ∈ d.hub.timers.armed) (hs : x.tag.service = s) :
    (d.fire x).view s =
      { d.view s with
        face := { (d.view s).face with alarms := [] }
        events := (d.view s).events ++ [(.expiry x.tag.number 0, true)] } := by
  obtain ⟨r, hr, hnumber, hc⟩ := hd.sound.tended.owned x hx
  have halarms := alarms_remove_cookie (s := s) hd.sound hx
  rw [if_pos hs] at halarms
  rw [hs] at hr
  have hsight : Event.sight (some r) (.expiry x.tag.number x.cookie) = (.expiry x.tag.number 0, true) := by
    simp [Event.sight, Event.bare, Event.Concerns, hnumber, hc]
  simp [view, fire, post, put, JobQueue.post, hs, hr, hsight, Hub.face, halarms]

/-- After a pass over the timers that leaves none that is due, the timer of the queue has fired if it was
due, and nothing else is seen of the pass. -/
theorem Fires.view (hfires : Fires d D) (hd : Sane d)
    (hlate : ∀ x ∈ D.hub.timers.armed, ¬x.deadline ≤ D.hub.clock) :
    ((∀ x ∈ d.hub.timers.armed, x.tag.service = s → ¬x.deadline ≤ d.hub.clock) → D.view s = d.view s) ∧
      ∀ x ∈ d.hub.timers.armed, x.tag.service = s → x.deadline ≤ d.hub.clock →
        D.view s = (d.fire x).view s := by
  induction hfires using ReflTransGen.head_induction_on with
  | refl => exact ⟨fun _ => rfl, fun x hx _ hdue => absurd hdue (hlate x hx)⟩
  | @head d d₁ hs _ ih =>
      obtain ⟨hnone, hown⟩ := ih (hd.step (i := .tick) hs.step)
      cases hs with
      | @fire y hy hdue =>
          have hleft : ∀ x ∈ (d.fire y).hub.timers.armed, x ∈ d.hub.timers.armed ∧ x.cookie ≠ y.cookie :=
            fun x hx => Timers.mem_remove.mp hx
          refine ⟨fun hall => ?_, fun x hx hs hdue' => ?_⟩
          · have hy' : y.tag.service ≠ s := fun hs => hall y hy hs hdue
            rw [hnone fun x hx hs => hall x (hleft x hx).1 hs, view_fire_other hd hy hy']
          · by_cases hy' : y.tag.service = s
            · obtain rfl := hd.eq_of_service hx hy (hs.trans hy'.symm)
              refine hnone fun z hz hzs => ?_
              obtain ⟨hz, hne⟩ := hleft z hz
              exact absurd (congrArg Timer.cookie (hd.eq_of_service hz hx (hzs.trans hs.symm))) hne
            · have hne : x.cookie ≠ y.cookie := fun hc =>
                hy' (hd.sound.tended.eq_of_cookie hx hy hc ▸ hs)
              have hx' : x ∈ (d.fire y).hub.timers.armed := Timers.mem_remove.mpr ⟨hx, hne⟩
              have hd₁ : Sane (d.fire y) := hd.step (i := .tick) (.fire hy hdue)
              rw [hown x hx' hs hdue', view_fire hd₁ hx' hs, view_fire hd hx hs, view_fire_other hd hy hy']

theorem Sane.fires (hd : Sane d) (hfires : Fires d D) : Sane D := by
  induction hfires with
  | refl => exact hd
  | tail _ hlast ih => exact ih.step (i := .tick) hlast.step

theorem Fires.view_own (hfires : Fires d D) (hfires' : Fires d' D') (hd : Sane d) (hd' : Sane d')
    (hlate : ∀ x ∈ D.hub.timers.armed, ¬x.deadline ≤ D.hub.clock)
    (hlate' : ∀ x ∈ D'.hub.timers.armed, ¬x.deadline ≤ D'.hub.clock) (hview : d.view s = d'.view s) :
    D.view s = D'.view s := by
  have halarms : d.hub.timers.alarms s = d'.hub.timers.alarms s := congrArg (fun v => v.face.alarms) hview
  have hclock : d.hub.clock = d'.hub.clock := congrArg (fun v => v.face.clock) hview
  by_cases hall : ∀ x ∈ d.hub.timers.armed, x.tag.service = s → ¬x.deadline ≤ d.hub.clock
  · have hall' : ∀ x ∈ d'.hub.timers.armed, x.tag.service = s → ¬x.deadline ≤ d'.hub.clock := by
      intro x' hx' hs' hdue
      obtain ⟨x, hx, hs, hsame⟩ :=
        Timers.mem_alarms_iff.mp (halarms ▸ Timers.mem_alarms_iff.mpr ⟨x', hx', hs', rfl⟩)
      have hdeadline : x.deadline = x'.deadline := congrArg Prod.fst hsame
      exact hall x hx hs (by rw [hdeadline, hclock]; exact hdue)
    rw [(hfires.view hd hlate).1 hall, (hfires'.view hd' hlate').1 hall', hview]
  · push Not at hall
    obtain ⟨x, hx, hs, hdue⟩ := hall
    obtain ⟨x', hx', hs', hsame⟩ :=
      Timers.mem_alarms_iff.mp (halarms ▸ Timers.mem_alarms_iff.mpr ⟨x, hx, hs, rfl⟩)
    have hdeadline : x'.deadline = x.deadline := congrArg Prod.fst hsame
    have htag : x'.tag = x.tag := congrArg (fun a => a.2.2) hsame
    have hdue' : x'.deadline ≤ d'.hub.clock := by rw [hdeadline, ← hclock]; exact hdue
    rw [(hfires.view hd hlate).2 x hx hs hdue, (hfires'.view hd' hlate').2 x' hx' hs' hdue',
      view_fire hd hx hs, view_fire hd' hx' hs', hview, htag]

end Timers

theorem view_submit_own (hview : d.view s = d'.view s) (task : Task) (admission : Admission) :
    (d.turned s ((d.queue s).submit s d.hub task admission)).view s =
      (d'.turned s ((d'.queue s).submit s d'.hub task admission)).view s := by
  have hidle : ∀ d : Desk, (d.queue s).isIdle =
      ((d.view s).running.isNone && (d.view s).waiting.isEmpty) := by
    intro d
    simp [view, JobQueue.isIdle, Fifo.isEmpty]
  by_cases ha : admission = .queue ∨ (d.queue s).isIdle = true
  · have ha' : admission = .queue ∨ (d'.queue s).isIdle = true := by rwa [hidle d', ← hview, ← hidle d]
    have hall : ∀ d : Desk, admission = .queue ∨ (d.queue s).isIdle = true →
        (d.turned s ((d.queue s).submit s d.hub task admission)).view s =
          { d.view s with
            submitted := (d.view s).submitted + 1
            waiting := (d.view s).waiting ++ [((d.view s).submitted, task)] } := by
      intro d ha
      simp [view, turned, JobQueue.submit_admitted ha, JobQueue.counted, Hub.face, Handlers.allocate,
        Handlers.ears]
    rw [hall d ha, hall d' ha', hview]
  · have ha' : ¬(admission = .queue ∨ (d'.queue s).isIdle = true) := by rwa [hidle d', ← hview, ← hidle d]
    have hall : ∀ d : Desk, ¬(admission = .queue ∨ (d.queue s).isIdle = true) →
        (d.turned s ((d.queue s).submit s d.hub task admission)).view s =
          { d.view s with
            submitted := (d.view s).submitted + 1
            effects := (d.view s).effects ++ [.result ⟨s, (d.view s).submitted⟩ (.failed .busy)] } := by
      intro d ha
      simp [view, turned, JobQueue.submit_busy ha, JobQueue.counted, Effect.job]
    rw [hall d ha, hall d' ha', hview]

theorem view_tellAll (d : Desk) :
    d.tellAll.view s =
      { d.view s with
        owing := []
        effects := (d.view s).effects ++ (d.view s).owing.map fun x => .result x.1 x.2 } := by
  rw [view, tellAll, List.filter_append, List.filter_map]
  rfl

theorem view_callOff (hd : Sane d) {w : Waiting} (hw : w ∈ (d.queue s).waiting.items)
    (others : List Waiting) :
    (d.callOff s w others).view s =
      { d.view s with
        waiting := others.map fun w => (w.number, w.task)
        owing := (d.view s).owing ++ [(⟨s, w.number⟩, .failed .cancelled)] } := by
  simp [view, callOff, put, face_callOff hd hw]

theorem view_cancelWaiting_own (hd : Sane d) (hd' : Sane d') (ho : d.owing = []) (ho' : d'.owing = [])
    (hview : d.view s = d'.view s) (number : Nat) :
    (d.turned s ((d.queue s).cancelWaiting s d.hub number).2).view s =
      (d'.turned s ((d'.queue s).cancelWaiting s d'.hub number).2).view s := by
  have hfound : ∀ d : Desk, Fifo.takeFirst? (fun w : Nat × Task => decide (w.1 = number)) (d.view s).waiting =
      (Fifo.takeFirst? (fun w : Waiting => decide (w.number = number)) (d.queue s).waiting.items).map
        (Prod.map (fun w => (w.number, w.task)) (List.map fun w => (w.number, w.task))) :=
    fun d => Fifo.takeFirst?_map _ _ _
  have hsame := (hfound d).symm.trans ((congrArg _ (congrArg View.waiting hview)).trans (hfound d'))
  cases hw : Fifo.takeFirst? (fun w : Waiting => decide (w.number = number)) (d.queue s).waiting.items with
  | none =>
      rw [hw] at hsame
      have hw' := Option.map_eq_none_iff.mp hsame.symm
      rw [turned_cancelWaiting_none hw, turned_cancelWaiting_none hw', hview]
  | some found =>
      obtain ⟨w, rest⟩ := found
      rw [hw] at hsame
      obtain ⟨⟨w', rest'⟩, hw', hpair⟩ := Option.map_eq_some_iff.mp hsame.symm
      simp only [Prod.map_apply, Prod.mk.injEq] at hpair
      obtain ⟨⟨hnumber, _⟩, hrest⟩ := hpair
      rw [turned_cancelWaiting_some ho hw, turned_cancelWaiting_some ho' hw', view_tellAll, view_tellAll,
        view_callOff hd (Fifo.mem_of_takeFirst? hw), view_callOff hd' (Fifo.mem_of_takeFirst? hw'), hview,
        hnumber, hrest]

theorem view_cancel_own (hd : Sane d) (hd' : Sane d') (ho : d.owing = []) (ho' : d'.owing = [])
    (hview : d.view s = d'.view s) (number : Nat) :
    (d.turned s ((d.queue s).cancel s d.hub number).2).view s =
      (d'.turned s ((d'.queue s).cancel s d'.hub number).2).view s := by
  have hwaiting := view_cancelWaiting_own hd hd' ho ho' hview number
  cases hr : (d.queue s).running with
  | none => simpa only [JobQueue.cancel, hr, idle_of_view hview hr] using hwaiting
  | some r =>
      cases hr' : (d'.queue s).running with
      | none => cases (idle_of_view hview.symm hr').symm.trans hr
      | some r' =>
          obtain ⟨hnumber, hactivity⟩ := running_of_view hview hr hr'
          by_cases hn : r.number = number
          · have hevents := congrArg View.events hview
            simp only [view, hr, hr'] at hevents
            have hw := Twins.of_view hview hr hr' hevents
            have due : Due d s _ r d.hub _ := .cancel hr
            have hfarewell : r.activity.farewell? = r'.activity.farewell? := by rw [hactivity]
            rw [hfarewell] at due
            have hafter : (d.after s (d.queue s) (r.cancel s d.hub)).view s =
                (d'.after s (d'.queue s) (r'.cancel s d'.hub)).view s := by
              rw [Running.cancel, hfarewell]
              exact due.view_own hd hd' (.cancel hr') hw
            have hturned := turned_cancel ho hr
            have hturned' := turned_cancel ho' hr'
            rw [hn] at hturned
            rw [← hnumber, hn] at hturned'
            rw [hturned, hturned', view_tellAll, view_tellAll, hafter]
          · have hn' : r'.number ≠ number := hnumber ▸ hn
            simpa only [JobQueue.cancel, hr, hr', if_neg hn, if_neg hn'] using hwaiting

theorem view_under_own (hview : d.view s = d'.view s) (i : Input) :
    (d.under i).view s = (d'.under i).view s := by
  have hall : ∀ d : Desk, (d.under i).view s =
      { d.view s with
        face := { (d.view s).face with
          clock := i.clock (d.view s).face.clock
          link := i.link (d.view s).face.link } } := fun _ => rfl
  rw [hall, hall, hview]

theorem pending_of_view (hview : d.view s = d'.view s) : (d.queue s).pending = (d'.queue s).pending := by
  have hall : ∀ d : Desk, (d.queue s).pending =
      (if (d.view s).running.isSome then 1 else 0) + (d.view s).waiting.length := by
    intro d
    simp [view, JobQueue.pending, Fifo.size]
  rw [hall, hall, hview]

end Desk

namespace Input

/-- The queue an input submits to or calls a job of off. -/
def service? : Input → Option Service
  | command _ => some .commands
  | transfer side _ _ => some (.mission side)
  | cancel side _ => some (.mission side)
  | _ => none

/-- Whether an input is left when all is deleted that is submitted to other queues or called off there. -/
def spares (s : Service) (i : Input) : Bool := i.service?.all (· = s)

end Input

namespace Reaction

variable {i : Input} {s t : Service} {r r' : Reaction}

/-- What a queue can see of an engine and of what was seen so far. -/
def view (r : Reaction) (s : Service) : View := (r.engine.desk r.effects fun _ => []).view s

def Sane (r : Reaction) : Prop := ∃ asked, (r.engine.desk r.effects asked).Sane

theorem Sane.work (hr : r.Sane) (t : Service) : (r.next (·.work t)).Sane := by
  obtain ⟨asked, hd⟩ := hr
  exact ⟨asked, Desk.keeps_of_reaches
    (fun _ _ h hs => h.step hs) hd (r.engine.reaches_work (i := .tick) t r.effects asked)⟩

theorem Sane.fireTimers (hr : r.Sane) : (r.next fun e => ⟨e.fireTimers, []⟩).Sane := by
  obtain ⟨asked, hd⟩ := hr
  refine ⟨asked, ?_⟩
  simpa [next] using hd.fires (r.engine.fires_fireTimers r.effects asked)

theorem Sane.step (hr : r.Sane) (hi : i.Steady) : (r.next (·.step i)).Sane := by
  obtain ⟨asked, hd⟩ := hr
  exact ⟨_, Engine.step_keeps (fun _ _ h hs => h.step hs) r.engine r.effects asked (hd.under hi)⟩

theorem next_next (r : Reaction) (f g : Engine → Reaction) :
    (r.next f).next g = r.next fun e => (f e).next g := by
  simp [next, List.append_assoc]

theorem next_tick (r : Reaction) :
    r.next (·.tick) =
      (((r.next fun e => ⟨e.fireTimers, []⟩).next (·.work .commands)).next (·.work (.mission .client))).next
        (·.work (.mission .server)) := by
  simp [next, Engine.tick, List.append_assoc]

/-- What is submitted to other queues or called off there is not seen. -/
theorem view_step_other (hr : r.Sane) (hi : i.service? = some t) (ht : t ≠ s) :
    (r.next (·.step i)).view s = r.view s := by
  obtain ⟨asked, hd⟩ := hr
  have hturned : ∀ turn, (r.next (·.afterTurn t turn)).view s =
      ((r.engine.desk r.effects fun _ => []).turned t turn).view s :=
    fun turn => congrArg (Desk.view · s) (r.engine.desk_afterTurn t turn r.effects fun _ => [])
  cases i with
  | command a =>
      cases hi
      exact (hturned _).trans (Desk.view_submit_other ht _ _)
  | transfer side x admission =>
      cases hi
      exact (hturned _).trans (Desk.view_submit_other ht _ _)
  | cancel side number =>
      cases hi
      exact (hturned _).trans (Desk.view_cancel_other hd ht number)
  | _ => cases hi

theorem view_work (hr : r.Sane) (hr' : r'.Sane) (hview : r.view s = r'.view s) (t : Service) :
    (r.next (·.work t)).view s = (r'.next (·.work t)).view s := by
  have hworked : ∀ r : Reaction, (r.next (·.work t)).view s =
      ((r.engine.desk r.effects fun _ => []).turned t ((r.engine.queue t).work t r.engine.hub)).view s :=
    fun r => congrArg (Desk.view · s) (r.engine.desk_work t r.effects fun _ => [])
  obtain ⟨asked, hd⟩ := hr
  obtain ⟨asked', hd'⟩ := hr'
  by_cases ht : t = s
  · subst ht
    have hown := Desk.view_work_own hd hd' rfl rfl hview
    exact (hworked r).trans (hown.trans (hworked r').symm)
  · have hother : ∀ d : Desk, d.Sane → d.owing = [] →
        (d.turned t ((d.queue t).work t d.hub)).view s = d.view s :=
      fun d hd ho => Desk.Works.view_other hd (Desk.sole_of_owing ho) ht (Desk.works_work d ho)
    have hsame := (hother _ hd rfl).trans (hview.trans (hother _ hd' rfl).symm)
    exact (hworked r).trans (hsame.trans (hworked r').symm)

theorem view_fireTimers (hr : r.Sane) (hr' : r'.Sane) (hview : r.view s = r'.view s) :
    (r.next fun e => ⟨e.fireTimers, []⟩).view s = (r'.next fun e => ⟨e.fireTimers, []⟩).view s := by
  obtain ⟨asked, hd⟩ := hr
  obtain ⟨asked', hd'⟩ := hr'
  have hpass := Desk.Fires.view_own (r.engine.fires_fireTimers r.effects asked)
    (r'.engine.fires_fireTimers r'.effects asked') hd hd' (r.engine.fireTimers_late hd.sound)
    (r'.engine.fireTimers_late hd'.sound)
    hview
  simp only [view, next, List.append_nil]
  exact hpass

theorem view_tick (hr : r.Sane) (hr' : r'.Sane) (hview : r.view s = r'.view s) :
    (r.next (·.tick)).view s = (r'.next (·.tick)).view s := by
  rw [next_tick, next_tick]
  have hfired := view_fireTimers hr hr' hview
  have hcommands := view_work hr.fireTimers hr'.fireTimers hfired .commands
  have hclient := view_work (hr.fireTimers.work _) (hr'.fireTimers.work _) hcommands (.mission .client)
  exact view_work ((hr.fireTimers.work _).work _) ((hr'.fireTimers.work _).work _) hclient (.mission .server)

/-- All other inputs lead from what looks the same to what looks the same. -/
theorem view_step_own (hr : r.Sane) (hr' : r'.Sane) (hview : r.view s = r'.view s) (hi : i.spares s = true) :
    (r.next (·.step i)).view s = (r'.next (·.step i)).view s := by
  have hunder : ∀ i : Input, (∀ e : Engine, e.step i = ⟨e.under i, []⟩) →
      (r.next (·.step i)).view s = (r'.next (·.step i)).view s := by
    intro i hstep
    simp only [view, next, hstep, List.append_nil]
    exact Desk.view_under_own hview i
  have hturned : ∀ (r : Reaction) (turn : Turn), (r.next (·.afterTurn s turn)).view s =
      ((r.engine.desk r.effects fun _ => []).turned s turn).view s :=
    fun r turn => congrArg (Desk.view · s) (r.engine.desk_afterTurn s turn r.effects fun _ => [])
  cases i with
  | command a =>
      obtain rfl : Service.commands = s := of_decide_eq_true hi
      exact (hturned r _).trans ((Desk.view_submit_own hview _ _).trans (hturned r' _).symm)
  | transfer side x admission =>
      obtain rfl : Service.mission side = s := of_decide_eq_true hi
      exact (hturned r _).trans ((Desk.view_submit_own hview _ _).trans (hturned r' _).symm)
  | cancel side number =>
      obtain rfl : Service.mission side = s := of_decide_eq_true hi
      obtain ⟨asked, hd⟩ := hr
      obtain ⟨asked', hd'⟩ := hr'
      have hcancelled := Desk.view_cancel_own hd hd' rfl rfl hview number
      exact (hturned r _).trans (hcancelled.trans (hturned r' _).symm)
  | receive header m =>
      have hreceived : ∀ r : Reaction, (r.next (·.step (.receive header m))).view s =
          ((r.engine.hub.handlers.matching m.kind).foldl (fun d x => d.deliver header m x)
            (r.engine.desk r.effects fun _ => [])).view s := by
        intro r
        rw [← Engine.desk_receive]
        simp [view, next, Engine.step]
      rw [hreceived, hreceived]
      exact Desk.view_receive_own hview header m
  | fireTimers => exact view_fireTimers hr hr' hview
  | work t => exact view_work hr hr' hview t
  | tick => exact view_tick hr hr' hview
  | advance us => exact hunder (.advance us) fun _ => rfl
  | setClock clock => exact hunder (.setClock clock) fun _ => rfl
  | accept acceptance => exact hunder (.accept acceptance) fun _ => rfl
  | autopilot stack => exact hunder (.autopilot stack) fun _ => rfl
  | connected up => exact hunder (.connected up) fun _ => rfl

theorem view_run (inputs : List Input) (hinputs : ∀ i ∈ inputs, i.Steady) :
    ∀ r r' : Reaction, r.Sane → r'.Sane → r.view s = r'.view s →
      (r.next (·.run inputs)).view s = (r'.next (·.run (inputs.filter (·.spares s)))).view s := by
  induction inputs with
  | nil =>
      intro r r' _ _ hview
      simpa [next, Engine.run] using hview
  | cons i rest ih =>
      intro r r' hr hr' hview
      have hrun : ∀ r : Reaction, ∀ rest : List Input, r.next (·.run (i :: rest)) =
          (r.next (·.step i)).next (·.run rest) :=
        fun r rest => (r.next_next _ _).symm
      have hi : i.Steady := hinputs i List.mem_cons_self
      have hrest := ih fun i hi => hinputs i (List.mem_cons_of_mem _ hi)
      by_cases hs : i.spares s = true
      · rw [List.filter_cons_of_pos hs, hrun, hrun]
        exact hrest _ _ (hr.step hi) (hr'.step hi) (view_step_own hr hr' hview hs)
      · rw [List.filter_cons_of_neg hs, hrun]
        have hforeign : ∃ t, i.service? = some t ∧ t ≠ s := by
          cases ht : i.service? with
          | none => simp [Input.spares, ht] at hs
          | some t => exact ⟨t, rfl, by simpa [Input.spares, ht] using hs⟩
        obtain ⟨t, hservice, ht⟩ := hforeign
        exact hrest _ _ (hr.step hi) hr' ((view_step_other hr hservice ht).trans hview)

end Reaction

namespace Engine

variable (config : Config) (link : Link) (clock : Instant)

theorem sane_idle (hlink : link.acceptance.next = link.acceptance) :
    Reaction.Sane ⟨idle config link clock, []⟩ := by
  refine ⟨fun _ => [], sound_idle config link clock, ?_⟩
  show link.offered = link
  rw [Link.offered, hlink]

/-- The queues of an engine do not interfere. As long as it does not depend on what was sent before whether
the link takes a message, everything that is seen of a queue is the same, and comes with the same input, if
whatever was submitted to the other two or called off there is left out; and so is the number of jobs the
queue has after each input. -/
theorem undisturbed (hlink : link.acceptance.next = link.acceptance) (s : Service) (inputs : List Input)
    (hinputs : ∀ acceptance, .accept acceptance ∈ inputs → acceptance.next = acceptance) {before : List Input}
    (hbefore : before <+: inputs) :
    let e := idle config link clock
    let alone := before.filter (·.spares s)
    (e.run before).effects.filter (·.job.service = s) = (e.run alone).effects.filter (·.job.service = s) ∧
      ((e.run before).engine.queue s).pending = ((e.run alone).engine.queue s).pending := by
  have hsteady : ∀ i ∈ before, i.Steady := by
    intro i hi
    cases i with
    | accept acceptance => exact hinputs acceptance (hbefore.subset hi)
    | _ => trivial
  have hsane := sane_idle config link clock hlink
  have hview := Reaction.view_run (s := s) before hsteady _ _ hsane hsane rfl
  have hrun : ∀ inputs, Reaction.next ⟨idle config link clock, []⟩ (·.run inputs) =
      (idle config link clock).run inputs :=
    fun _ => rfl
  rw [hrun, hrun] at hview
  exact ⟨congrArg View.effects hview, Desk.pending_of_view hview⟩

/-- A command beside a download that is called off later. In the end the link takes no more commands. -/
theorem undisturbed_beside_download :
    let e := idle .default default 0
    let inputs : List Input :=
      [.transfer .client (.download ⟨⟨.pilotOf 1, .mission⟩, false⟩) .queue,
        .command ⟨.long (.arm 1 true), false⟩, .tick,
        .receive ⟨.pilotOf 1, 0⟩ (.missionCount ⟨2, Config.default.own, .mission⟩), .tick, .cancel .client 0,
        .accept (.steady (·.kind ≠ .commandLong)), .advance 500000, .tick]
    let alone := inputs.filter (·.spares .commands)
    (default : Link).acceptance.next = (default : Link).acceptance ∧
      (∀ acceptance, .accept acceptance ∈ inputs → acceptance.next = acceptance) ∧
      ((e.run inputs).effects.length, (e.run alone).effects.length) = (7, 3) ∧
      (e.run inputs).effects.filter (·.job.service = .commands) =
        (e.run alone).effects.filter (·.job.service = .commands) ∧
      ((e.run inputs).engine.queue .commands).pending = ((e.run alone).engine.queue .commands).pending := by
  intro e inputs alone
  have hlink : (default : Link).acceptance.next = (default : Link).acceptance := rfl
  have hinputs : ∀ acceptance, .accept acceptance ∈ inputs → acceptance.next = acceptance := by
    intro acceptance h
    obtain rfl : acceptance = .steady (·.kind ≠ .commandLong) := by simpa [inputs] using h
    rfl
  exact ⟨hlink, hinputs, by decide +kernel,
    undisturbed .default default 0 hlink .commands inputs hinputs (List.prefix_refl inputs)⟩

end Engine

end GroundLink
