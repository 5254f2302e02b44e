import GroundLink.Proofs.Bystander

/-! What a queue does depends on its view only. Two desks of which a queue has the same view make the same
steps when the queue works, and it has the same view of them again after each (`Desk.WorkStep.view_own`).
So it has when the work is done, since there is one desk only that the work can come to
(`Desk.view_work_own`). -/

namespace GroundLink

open Function Relation

namespace Event

variable {r r₁ : Running} {e : Event}

/-- What is left of an event's sight once the job's timer is another one. -/
def mute (x : Event × Bool) : Event × Bool := (x.1, x.2 && x.1.isMessage)

theorem sight_mute (hnumber : r₁.number = r.number) (hcookie : ∀ n c, e = .expiry n c → r₁.cookie ≠ some c) :
    e.sight (some r₁) = mute (e.sight (some r)) := by
  cases e with
  | message job header m =>
      have hsame : Concerns r₁ (.message job header m) ↔ Concerns r (.message job header m) := by
        simp only [Concerns, hnumber]
      simp [sight, mute, bare, isMessage, hsame]
  | expiry job c =>
      have hstray : ¬Concerns r₁ (.expiry job c) := fun h => hcookie job c rfl h.2
      simp [sight, mute, bare, isMessage, hstray]

theorem sight_same (hnumber : r₁.number = r.number) (hcookie : r₁.cookie = r.cookie) :
    e.sight (some r₁) = e.sight (some r) := by
  have hsame : e.Concerns r₁ ↔ e.Concerns r := by
    cases e <;> simp only [Concerns, hnumber, hcookie]
  simp [sight, hsame]

end Event

namespace Face

/-- What a step makes of the face of a hub when it arms a timer, gives the armed one its span again, or
ends the job. -/
def armed (f : Face) (span : Span) (t : Ticket) : Face := { f with alarms := [(f.clock.after span, span, t)] }

def extended (f : Face) : Face := { f with alarms := f.alarms.map fun a => (f.clock.after a.2.1, a.2) }

def ended (f : Face) : Face := { f with alarms := [], ears := f.ears.filter (·.2 = .commands) }

end Face

namespace Desk

variable {i : Input} {d d' : Desk} {s : Service} {q q' : JobQueue} {r r' r₁ : Running} {h h' : Hub}
    {move : Move Activity}

theorem Due.steady (hd : Sane d) (due : Due d s q r h move) : h.link.offered = h.link := by
  rw [due.link, hd.steady]

theorem Due.face_ended (hd : Sane d) (due : Due d s q r h move)
    (hend : (r.follow s h move).standing.running? = none) :
    (r.follow s h move).hub.face s = (h.face s).ended := by
  have hf := r.follow_follows s h move
  have haround := hf.around (due.steady hd)
  have hd' : Sane (d.after s q (r.follow s h move)) := hd.step (i := .tick) (.follow due)
  have halarms : (r.follow s h move).hub.timers.alarms s = [] := by
    refine Timers.alarms_eq_nil fun x hx hs => ?_
    obtain ⟨r', hr', _⟩ := hd'.sound.tended.owned x hx
    rw [hs] at hr'
    simp [after, hend] at hr'
  have hears : (r.follow s h move).hub.handlers.ears s = (h.handlers.ears s).filter (·.2 = .commands) := by
    have hhandlers := hf.handlers
    rw [hend, Option.isSome_none, if_neg Bool.false_ne_true] at hhandlers
    rw [hhandlers]
    refine Handlers.ears_unregisterAll_own fun x hx hs => (due.owner_iff hd.sound hx).trans ?_
    exact ⟨And.right, fun hne => ⟨hs, hne⟩⟩
  rw [Hub.face, halarms, hears, haround]
  rfl

theorem Due.face_await (hd : Sane d) (due : Due d s q r h move) (wait : Wait) :
    (h.await (r.ticket s) r.cookie wait).2.face s =
      match wait with
      | .restart span => (h.face s).armed span (r.ticket s)
      | .extend => (h.face s).extended := by
  have hown : ∀ x ∈ h.timers.armed, x.tag.service = s → r.cookie = some x.cookie := fun x hx hs =>
    (due.cookie_iff hd.sound hx).mpr hs
  cases wait with
  | restart span =>
      have hgone : (h.disarm r.cookie).timers.alarms s = [] := by
        refine Timers.alarms_eq_nil fun x hx hs => ?_
        cases hc : r.cookie with
        | none =>
            rw [hc] at hx
            have := hown x hx hs
            rw [hc] at this
            cases this
        | some c =>
            rw [hc] at hx
            obtain ⟨hx, hne⟩ := Timers.mem_remove.mp hx
            have := hown x hx hs
            rw [hc, Option.some.injEq] at this
            exact hne this.symm
      have hclock : (h.disarm r.cookie).clock = h.clock := by cases r.cookie <;> rfl
      have harm : ((h.disarm r.cookie).arm (r.ticket s) span).timers.alarms s =
          [(h.clock.after span, span, r.ticket s)] := by
        rw [Hub.arm, Timers.alarms_add, hgone, hclock]
        exact if_pos rfl
      show ((h.disarm r.cookie).arm (r.ticket s) span).face s = _
      rw [Hub.face, harm]
      cases r.cookie <;> rfl
  | extend =>
      show (h.refresh r.cookie).face s = _
      cases hc : r.cookie with
      | none =>
          have hnone : h.timers.alarms s = [] := Timers.alarms_eq_nil fun x hx hs => by
            have := hown x hx hs
            rw [hc] at this
            cases this
          simp only [Hub.refresh, Hub.face, Face.extended, hnone, List.map_nil]
      | some c =>
          have halarms := Timers.alarms_refresh_own (c := c) h.clock fun x hx hs =>
            Option.some.inj ((hown x hx hs).symm.trans hc)
          simp only [Hub.refresh, Hub.face, Face.extended, halarms]

theorem view_after (d : Desk) (s : Service) (q : JobQueue) (p : Progress) :
    (d.after s q p).view s =
      ⟨p.hub.face s, q.submitted, p.standing.running?.map fun r => (r.number, r.activity),
        q.waiting.items.map fun w => (w.number, w.task), q.events.map (Event.sight p.standing.running?),
        (d.owing ++ p.standing.owed s).filter (·.1.service = s),
        (d.effects ++ p.effects).filter (·.job.service = s)⟩ := by
  simp [view, after]

/-- Two desks and jobs of them that are about to make the same step, as far as their queue can see. -/
structure Twins (s : Service) (d d' : Desk) (q q' : JobQueue) (r r' : Running) (h h' : Hub) : Prop where
  face : h.face s = h'.face s
  submitted : q.submitted = q'.submitted
  waiting : (q.waiting.items.map fun w => (w.number, w.task)) =
    q'.waiting.items.map fun w => (w.number, w.task)
  events : q.events.map (Event.sight (some r)) = q'.events.map (Event.sight (some r'))
  number : r.number = r'.number
  activity : r.activity = r'.activity
  owing : d.owing.filter (·.1.service = s) = d'.owing.filter (·.1.service = s)
  effects : d.effects.filter (·.job.service = s) = d'.effects.filter (·.job.service = s)

namespace Twins

variable {p p' : Progress}

theorem ticket (hw : Twins s d d' q q' r r' h h') : r.ticket s = r'.ticket s := by
  rw [Running.ticket, Running.ticket, hw.number]

theorem report (hw : Twins s d d' q q' r r' h h') (f : Option Fraction) : r.report s f = r'.report s f := by
  cases f <;> simp only [Running.report, hw.activity, hw.ticket]

theorem mute_events (hw : Twins s d d' q q' r r' h h') {r₁ r₁' : Running} (hn : r₁.number = r.number)
    (hn' : r₁'.number = r'.number) (hc : ∀ n c, .expiry n c ∈ q.events → r₁.cookie ≠ some c)
    (hc' : ∀ n c, .expiry n c ∈ q'.events → r₁'.cookie ≠ some c) :
    q.events.map (Event.sight (some r₁)) = q'.events.map (Event.sight (some r₁')) := by
  have hmute : ∀ (events : List Event) (r r₁ : Running), r₁.number = r.number →
      (∀ n c, .expiry n c ∈ events → r₁.cookie ≠ some c) →
        events.map (Event.sight (some r₁)) = (events.map (Event.sight (some r))).map Event.mute := by
    intro events r r₁ hn hc
    rw [List.map_map]
    exact List.map_congr_left fun e he => Event.sight_mute hn fun n c h => hc n c (h ▸ he)
  rw [hmute _ r r₁ hn hc, hmute _ r' r₁' hn' hc', hw.events]

/-- What the two come to looks the same if the two jobs have come to look the same, and the hubs. -/
theorem view_stepped (hw : Twins s d d' q q' r r' h h') (hface : p.hub.face s = p'.hub.face s)
    (hrunning : (p.standing.running?.map fun r => (r.number, r.activity)) =
      p'.standing.running?.map fun r => (r.number, r.activity))
    (hevents : q.events.map (Event.sight p.standing.running?) =
      q'.events.map (Event.sight p'.standing.running?))
    (howed : p.standing.owed s = p'.standing.owed s) (heffects : p.effects = p'.effects) :
    (d.after s q p).view s = (d'.after s q' p').view s := by
  rw [view_after, view_after, hface, hw.submitted, hrunning, hw.waiting, hevents, howed, heffects]
  simp only [List.filter_append, hw.owing, hw.effects]

theorem view_ended (hw : Twins s d d' q q' r r' h h') {e : Ended} (hface : p.hub.face s = p'.hub.face s)
    (hp : p.standing = .ended e) (hp' : p'.standing = .ended e) (heffects : p.effects = p'.effects) :
    (d.after s q p).view s = (d'.after s q' p').view s := by
  refine hw.view_stepped hface (by rw [hp, hp']) ?_ (by rw [hp, hp']) heffects
  have hnone : ∀ (events : List Event) (r : Running),
      events.map (Event.sight none) = (events.map (Event.sight (some r))).map fun x => (x.1, false) := by
    intro events r
    rw [List.map_map]
    rfl
  rw [hp, hp']
  show q.events.map (Event.sight none) = q'.events.map (Event.sight none)
  rw [hnone _ r, hnone _ r', hw.events]

end Twins


theorem Due.expiry_ne_issued (hd : Sane d) (due : Due d s q r h move) :
    ∀ n c, .expiry n c ∈ q.events → some h.timers.issued ≠ some c := by
  intro n c he hsame
  have hold : .expiry n c ∈ (d.queue s).events := by
    cases due with
    | hear running events concerns => exact events ▸ List.mem_cons_of_mem _ he
    | expire running events own => exact events ▸ List.mem_cons_of_mem _ he
    | _ => exact he
  have hlt := (hd.sound.tended.fired _ _ _ hold).1
  rw [due.timers, Option.some.injEq] at hsame
  exact absurd hlt (hsame ▸ Nat.lt_irrefl _)

section Same

variable (hd : Sane d) (hd' : Sane d') (due : Due d s q r h move) (due' : Due d' s q' r' h' move)
  (hw : Twins s d d' q q' r r' h h')

include hd hd' due due' hw

theorem Due.face_waited (wait : Wait) (message : Option Message) :
    ((h.await (r.ticket s) r.cookie wait).2.offered message).face s =
      ((h'.await (r'.ticket s) r'.cookie wait).2.offered message).face s := by
  have hlink : (h.await (r.ticket s) r.cookie wait).2.link.offered =
      (h.await (r.ticket s) r.cookie wait).2.link := by
    rw [Hub.await_link, due.steady hd]
  have hlink' : (h'.await (r'.ticket s) r'.cookie wait).2.link.offered =
      (h'.await (r'.ticket s) r'.cookie wait).2.link := by
    rw [Hub.await_link, due'.steady hd']
  rw [Hub.face_of_link hlink, Hub.face_of_link hlink', due.face_await hd wait,
    due'.face_await hd' wait, hw.face, hw.ticket]

theorem Due.events_waited (wait : Wait) (activity : Activity) :
    q.events.map (Event.sight (some { r with activity, cookie := (h.await (r.ticket s) r.cookie wait).1 })) =
      q'.events.map
        (Event.sight (some { r' with activity, cookie := (h'.await (r'.ticket s) r'.cookie wait).1 })) := by
  cases wait with
  | restart span =>
      -- no expiry is that of the new timer
      have hissued : ∀ (h : Hub) (t : Ticket) (c : Option Cookie),
          (h.await t c (.restart span)).1 = some h.timers.issued := fun _ _ c => by cases c <;> rfl
      refine hw.mute_events rfl rfl (fun n c he => ?_) fun n c he => ?_
      · exact hissued h _ _ ▸ due.expiry_ne_issued hd n c he
      · exact hissued h' _ _ ▸ due'.expiry_ne_issued hd' n c he
  | extend =>
      have hsame : ∀ (events : List Event) (r : Running),
          events.map (Event.sight (some { r with activity })) = events.map (Event.sight (some r)) :=
        fun events r => List.map_congr_left fun e _ => Event.sight_same rfl rfl
      exact (hsame _ r).trans (hw.events.trans (hsame _ r').symm)

/-- The same step of the same job is seen as the same. -/
theorem Due.view_own :
    (d.after s q (r.follow s h move)).view s = (d'.after s q' (r'.follow s h' move)).view s := by
  have hf := r.follow_follows s h move
  have hf' := r'.follow_follows s h' move
  have hend : (r.follow s h move).standing.running? = none → (r'.follow s h' move).standing.running? = none →
      (r.follow s h move).hub.face s = (r'.follow s h' move).hub.face s := by
    intro hnone hnone'
    rw [due.face_ended hd hnone, due'.face_ended hd' hnone', hw.face]
  have hwaited := due.face_waited hd hd' due' hw
  have hevents := due.events_waited hd hd' due' hw
  generalize r.follow s h move = p at hf hend
  generalize r'.follow s h' move = p' at hf' hend
  -- both links take the message or both refuse it
  have haccepts : h.link.accepts = h'.link.accepts := congrArg (fun f => f.link.accepts) hw.face
  cases hf with
  | ignored =>
      cases hf' with
      | ignored =>
          exact hw.view_stepped hw.face (by simp [Standing.running?, hw.number, hw.activity])
            hw.events rfl rfl
  | waited wait report message activity taken =>
      cases hf' with
      | waited _ _ _ _ taken' =>
          refine hw.view_stepped (hwaited wait message) (by simp [Standing.running?, hw.number])
            (hevents wait activity) rfl ?_
          show r.report s report ++ _ = r'.report s report ++ _
          rw [hw.report, hw.ticket]
      | broken _ _ m _ refused => cases (taken m rfl).symm.trans ((congrFun haccepts m).trans refused)
  | broken wait report m activity refused =>
      cases hf' with
      | waited _ _ _ _ taken' => cases refused.symm.trans ((congrFun haccepts m).trans (taken' m rfl))
      | broken _ _ _ _ refused' =>
          refine hw.view_ended (hend rfl rfl) rfl (by rw [hw.number, hw.activity]) ?_
          show r.report s report ++ _ = r'.report s report ++ _
          rw [hw.report, hw.ticket]
  | finished message report outcome taken =>
      cases hf' with
      | finished _ _ _ taken' =>
          refine hw.view_ended (hend rfl rfl) rfl (by rw [hw.number]) ?_
          show _ ++ r.report s report = _ ++ r'.report s report
          rw [hw.report, hw.ticket]
      | failed m _ _ refused => cases (taken m rfl).symm.trans ((congrFun haccepts m).trans refused)
  | failed m report outcome refused =>
      cases hf' with
      | finished _ _ _ taken' => cases refused.symm.trans ((congrFun haccepts m).trans (taken' m rfl))
      | failed _ _ _ refused' =>
          refine hw.view_ended (hend rfl rfl) rfl (by rw [hw.number, hw.activity]) ?_
          show [Effect.refused (r.ticket s) m] = [Effect.refused (r'.ticket s) m]
          rw [hw.ticket]

end Same

theorem running_of_view (hview : d.view s = d'.view s) (hr : (d.queue s).running = some r)
    (hr' : (d'.queue s).running = some r') : r.number = r'.number ∧ r.activity = r'.activity := by
  have hrunning := congrArg View.running hview
  simpa only [view, hr, hr', Option.map_some, Option.some.injEq, Prod.mk.injEq] using hrunning

theorem Twins.of_view (hview : d.view s = d'.view s) (hr : (d.queue s).running = some r)
    (hr' : (d'.queue s).running = some r') {rest rest' : List Event}
    (hevents : rest.map (Event.sight (some r)) = rest'.map (Event.sight (some r'))) :
    Twins s d d' ((d.queue s).withEvents rest) ((d'.queue s).withEvents rest') r r' d.hub d'.hub where
  face := congrArg View.face hview
  submitted := congrArg View.submitted hview
  waiting := congrArg View.waiting hview
  events := hevents
  number := (running_of_view hview hr hr').1
  activity := (running_of_view hview hr hr').2
  owing := congrArg View.owing hview
  effects := congrArg View.effects hview

/-- The same event, as far as the queue can see, has the same effect on the job under way. -/
theorem view_take (hd : Sane d) (hd' : Sane d') (hview : d.view s = d'.view s) {e e' : Event}
    {rest rest' : List Event} (hr : (d.queue s).running = some r) (he : (d.queue s).events = e :: rest)
    (hr' : (d'.queue s).running = some r') (he' : (d'.queue s).events = e' :: rest') :
    (d.after s ((d.queue s).withEvents rest) (r.take s d.hub e)).view s =
      (d'.after s ((d'.queue s).withEvents rest') (r'.take s d'.hub e')).view s := by
  have hevents := congrArg View.events hview
  simp only [view, hr, hr', he, he', List.map_cons, List.cons.injEq, Event.sight, Prod.mk.injEq,
    Option.any_some, decide_eq_decide] at hevents
  obtain ⟨⟨hbare, hconcerns⟩, hrest⟩ := hevents
  have hw : Twins s d d' ((d.queue s).withEvents rest) ((d'.queue s).withEvents rest') r r' d.hub d'.hub :=
    .of_view hview hr hr' (by simpa [Event.sight] using hrest)
  have hsetting := Hub.setting_of_face hw.face
  by_cases hc : e.Concerns r
  · have hc' := hconcerns.mp hc
    cases e with
    | message job header m =>
        cases e' with
        | message job' header' m' =>
            cases hbare
            have hmove : r.activity.onMessage (d.hub.setting s) header.sender m =
                r'.activity.onMessage (d'.hub.setting s) header.sender m := by rw [hw.activity, hsetting]
            have due := Due.hear hr he hc
            rw [hmove] at due
            rw [Running.take_heard hc, Running.take_heard hc', hmove]
            exact due.view_own hd hd' (.hear hr' he' hc') hw
        | expiry => cases hbare
    | expiry job cookie =>
        cases e' with
        | message => cases hbare
        | expiry job' cookie' =>
            obtain ⟨rfl, hown⟩ := hc
            obtain ⟨rfl, hown'⟩ := hc'
            have hmove : r.activity.onTimeout (d.hub.setting s) =
                r'.activity.onTimeout (d'.hub.setting s) := by
              rw [hw.activity, hsetting]
            have due := Due.expire hr he hown
            -- both timers are gone, and no other expiry is for these jobs
            have hspent : Twins s d d' ((d.queue s).withEvents rest) ((d'.queue s).withEvents rest')
                { r with cookie := none } { r' with cookie := none } d.hub d'.hub :=
              { hw with
                events := hw.mute_events rfl rfl (fun _ _ _ h => by cases h) fun _ _ _ h => by cases h }
            rw [hmove] at due
            rw [Running.take_expired hown, Running.take_expired hown', hmove]
            exact due.view_own hd hd' (.expire hr' he' hown') hspent
  · rw [Running.take_stray hc, Running.take_stray fun hc' => hc (hconcerns.mpr hc')]
    exact hw.view_stepped hw.face (by simp [Standing.running?, hw.number, hw.activity]) hw.events rfl rfl

/-- The same job starts the same way. -/
theorem view_start (hd : Sane d) (hd' : Sane d') (hview : d.view s = d'.view s) {w w' : Waiting}
    {rest rest' : List Waiting} (hr : (d.queue s).running = none) (he : (d.queue s).events = [])
    (hw : (d.queue s).waiting.items = w :: rest) (hr' : (d'.queue s).running = none)
    (he' : (d'.queue s).events = []) (hw' : (d'.queue s).waiting.items = w' :: rest') :
    (d.after s ((d.queue s).withWaiting rest) (w.start s d.hub)).view s =
      (d'.after s ((d'.queue s).withWaiting rest') (w'.start s d'.hub)).view s := by
  have hwaiting := congrArg View.waiting hview
  simp only [view, hw, hw', List.map_cons, List.cons.injEq, Prod.mk.injEq] at hwaiting
  obtain ⟨⟨hnumber, htask⟩, hrest⟩ := hwaiting
  have hface : d.hub.face s = d'.hub.face s := congrArg View.face hview
  have hsetting := Hub.setting_of_face hface
  have hsubscribed : (w.subscribe s d.hub).face s = (w'.subscribe s d'.hub).face s := by
    have hears : d.hub.handlers.ears s = d'.hub.handlers.ears s := congrArg Face.ears hface
    have hall : (w.subscribe s d.hub).handlers.ears s = (w'.subscribe s d'.hub).handlers.ears s := by
      rw [Waiting.subscribe, Waiting.subscribe, Handlers.ears_registerAll, Handlers.ears_registerAll,
        hears, hnumber, htask]
    have hother : (w.subscribe s d.hub).face s =
        { d.hub.face s with ears := (w.subscribe s d.hub).handlers.ears s } := rfl
    have hother' : (w'.subscribe s d'.hub).face s =
        { d'.hub.face s with ears := (w'.subscribe s d'.hub).handlers.ears s } := rfl
    rw [hother, hother', hface, hall]
  have hopening : Twins s d d' ((d.queue s).withWaiting rest) ((d'.queue s).withWaiting rest')
      (w.opening (d.hub.setting s)) (w'.opening (d'.hub.setting s)) (w.subscribe s d.hub)
        (w'.subscribe s d'.hub) :=
    { face := hsubscribed
      submitted := congrArg View.submitted hview
      waiting := hrest
      events := by simp [he, he']
      number := hnumber
      activity := by simp only [Waiting.opening, htask, hsetting]
      owing := congrArg View.owing hview
      effects := congrArg View.effects hview }
  have hmove : w.task.start (d.hub.setting s) = w'.task.start (d'.hub.setting s) := by rw [htask, hsetting]
  have due : Due d s _ _ _ _ := .start hr hw
  have hstart : w.start s d.hub = (w.opening (d.hub.setting s)).follow s (w.subscribe s d.hub)
      (w.task.start (d.hub.setting s)) := rfl
  rw [hmove] at due hstart
  rw [hstart]
  exact due.view_own hd hd' (.start hr' hw') hopening

theorem idle_of_view (hview : d.view s = d'.view s) (hr : (d.queue s).running = none) :
    (d'.queue s).running = none := by
  have hrunning := congrArg View.running hview
  simpa only [view, hr, Option.map_none, eq_comm (a := none), Option.map_eq_none_iff] using hrunning

theorem events_of_view (hview : d.view s = d'.view s) (he : (d.queue s).events = []) :
    (d'.queue s).events = [] := by
  have hevents := congrArg View.events hview
  simpa only [view, he, List.map_nil, eq_comm (a := []), List.map_eq_nil_iff] using hevents

theorem rested_of_view (hview : d.view s = d'.view s) (hrested : (d.queue s).Rested) :
    (d'.queue s).Rested := by
  refine ⟨events_of_view hview hrested.1, fun hr' => ?_⟩
  have hwaiting := congrArg View.waiting hview
  simpa only [view, hrested.2 (idle_of_view hview.symm hr'), List.map_nil, eq_comm (a := []),
    List.map_eq_nil_iff]
    using hwaiting

theorem Sole.owing_eq (hsole : Sole s d) : (d.view s).owing = d.owing :=
  List.filter_eq_self.mpr fun x hx => decide_eq_true (hsole x hx)

theorem view_tell (hview : d.view s = d'.view s) (t : Ticket) (o : Outcome) (rest : List (Ticket × Outcome)) :
    (d.tell t o rest).view s = (d'.tell t o rest).view s := by
  have heffects : d.effects.filter (·.job.service = s) = d'.effects.filter (·.job.service = s) :=
    congrArg View.effects hview
  have hall : ∀ d : Desk, (d.tell t o rest).view s =
      { d.view s with
        owing := rest.filter (·.1.service = s)
        effects := d.effects.filter (·.job.service = s) ++
          [Effect.result t o].filter (·.job.service = s) } := by
    intro d
    rw [view, tell, List.filter_append]
    rfl
  rw [hall, hall, hview, heffects]

/-- A small step of the queue on one desk is one on a desk of which the queue has the same view. -/
theorem WorkStep.view_own (hd : Sane d) (hd' : Sane d') (hsole : Sole s d) (hsole' : Sole s d')
    (hview : d.view s = d'.view s) {d₁ : Desk} (hs : WorkStep s d d₁) :
    ∃ d₁', WorkStep s d' d₁' ∧ d₁.view s = d₁'.view s := by
  cases hs with
  | @take r e rest hr he =>
      cases hr' : (d'.queue s).running with
      | none => cases (idle_of_view hview.symm hr').symm.trans hr
      | some r' =>
          cases he' : (d'.queue s).events with
          | nil => cases (events_of_view hview.symm he').symm.trans he
          | cons e' rest' => exact ⟨_, .take hr' he', view_take hd hd' hview hr he hr' he'⟩
  | clear hr he =>
      have hr' := idle_of_view hview hr
      refine ⟨_, .clear hr' fun he' => he (events_of_view hview.symm he'), ?_⟩
      have hall : ∀ d : Desk, (d.put s ((d.queue s).withEvents [])).view s =
          { d.view s with events := [] } := by
        intro d
        simp [view, put]
      rw [hall, hall, hview]
  | @start w rest hr he hw =>
      have hr' := idle_of_view hview hr
      have he' := events_of_view hview he
      cases hw' : (d'.queue s).waiting.items with
      | nil => cases ((rested_of_view hview.symm ⟨he', fun _ => hw'⟩).2 hr).symm.trans hw
      | cons w' rest' => exact ⟨_, .start hr' he' hw', view_start hd hd' hview hr he hw hr' he' hw'⟩
  | @tell t o rest hrested howing =>
      have howing' : d'.owing = (t, o) :: rest := by
        rw [← hsole'.owing_eq, ← hview, hsole.owing_eq, howing]
      exact ⟨_, .tell (rested_of_view hview hrested) howing', view_tell hview t o rest⟩

/-- What a queue comes to when it works is the same to its view whenever that was the same before. -/
theorem Works.view_own (hd : Sane d) (hd' : Sane d') (hsole : Sole s d) (hsole' : Sole s d')
    (hview : d.view s = d'.view s) {D : Desk} (hworks : Works s d D) :
    ∃ D', Works s d' D' ∧ D.view s = D'.view s := by
  induction hworks with
  | refl => exact ⟨d', .refl, hview⟩
  | tail hworks hlast ih =>
      obtain ⟨d₁', hworks', hview₁⟩ := ih
      obtain ⟨D', hlast', hview'⟩ :=
        hlast.view_own (hd.works hworks) (hd'.works hworks') (hsole.works hworks)
          (hsole'.works hworks') hview₁
      exact ⟨D', hworks'.tail hlast', hview'⟩

theorem view_work_own (hd : Sane d) (hd' : Sane d') (ho : d.owing = []) (ho' : d'.owing = [])
    (hview : d.view s = d'.view s) :
    (d.turned s ((d.queue s).work s d.hub)).view s = (d'.turned s ((d'.queue s).work s d'.hub)).view s := by
  have hrested : ∀ d : Desk, ((d.turned s ((d.queue s).work s d.hub)).queue s).Rested := fun d => by
    simpa [turned] using (d.queue s).rested_work s d.hub
  have hsole' := sole_of_owing (t := s) ho'
  obtain ⟨D', hworks', hview'⟩ := Works.view_own hd hd' (sole_of_owing ho) hsole' hview (works_work d ho)
  have hnone : D'.owing = [] := by
    rw [← (hsole'.works hworks').owing_eq, ← hview']
    exact List.filter_eq_nil_iff.mpr fun x hx => absurd (ho ▸ hx) List.not_mem_nil
  have hdone : Done s D' := ⟨rested_of_view hview' (hrested d), hnone⟩
  rw [hview', hworks'.unique (works_work d' ho') hdone ⟨hrested d', ho'⟩]

end Desk

end GroundLink
