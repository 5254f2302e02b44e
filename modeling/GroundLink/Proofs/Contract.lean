import GroundLink.Proofs.Simulation

/-! What an engine does with jobs that keep to a contract. A contract says what may be asked for, which
states such a job may be in, what comes in and goes out, and what a job that succeeds hands over. If the
steps of jobs keep to it (`Contract.Lawful`), then so does the engine (`Contract.engine_step`), in
whatever order its queues, timers and events take their turns. -/

namespace GroundLink

open Function

namespace Move

variable {σ : Type}

def value? : Move σ → Option Value
  | finish _ _ (.success value) => some value
  | _ => none

theorem value?_map {ρ : Type} (f : σ → ρ) (m : Move σ) : (m.map f).value? = m.value? := by
  cases m with
  | finish message report outcome => cases outcome <;> rfl
  | _ => rfl

end Move

/-- What jobs may do, and what they may take for granted. -/
structure Contract where
  task : Task → Prop
  activity : Activity → Prop
  heard : Message → Prop
  sent : Message → Prop
  value : Value → Prop

namespace Contract

variable {c c' : Contract}

/-- Whether a step keeps to a contract. -/
structure Allows (c : Contract) (move : Move Activity) : Prop where
  sent : ∀ m, move.message? = some m → c.sent m
  activity : ∀ a, move.next? = some a → c.activity a
  value : ∀ v, move.value? = some v → c.value v

theorem allows_ignore (c : Contract) : c.Allows .ignore where
  sent _ hm := by cases hm
  activity _ ha := by cases ha
  value _ hv := by cases hv

theorem allows_failure (c : Contract) (cause : Failure) : c.Allows (.stop (.failure cause)) where
  sent _ hm := by cases hm
  activity _ ha := by cases ha
  value _ hv := by cases hv

/-- Whether jobs keep to a contract. -/
structure Lawful (c : Contract) : Prop where
  initial : ∀ s t, c.task t → c.activity (t.initial s)
  start : ∀ s t, c.task t → c.Allows (t.start s)
  message : ∀ s sender m a, c.activity a → c.heard m → c.Allows (a.onMessage s sender m)
  timeout : ∀ s a, c.activity a → c.Allows (a.onTimeout s)
  farewell : ∀ a m, c.activity a → a.farewell? = some m → c.sent m

/-- Whether one contract allows all that another does. -/
structure Extends (c c' : Contract) : Prop where
  task : ∀ t, c.task t → c'.task t
  activity : ∀ a, c.activity a → c'.activity a
  heard : ∀ m, c.heard m → c'.heard m
  sent : ∀ m, c.sent m → c'.sent m
  value : ∀ v, c.value v → c'.value v

def Shows (c : Contract) : Effect → Prop
  | .sent _ m => c.sent m
  | .result _ (.success v) => c.value v
  | _ => True

def Posts (c : Contract) : Event → Prop
  | .message _ _ m => c.heard m
  | .expiry _ _ => True

def Tells (c : Contract) : Outcome → Prop
  | .success v => c.value v
  | .failure _ => True

structure Queues (c : Contract) (q : JobQueue) : Prop where
  running : ∀ r, q.running = some r → c.activity r.activity
  waiting : ∀ w ∈ q.waiting.items, c.task w.task
  events : ∀ e ∈ q.events, c.Posts e

/-- Whether a desk keeps to a contract. -/
structure Holds (c : Contract) (d : Desk) : Prop where
  queue : ∀ s, c.Queues (d.queue s)
  owing : ∀ x ∈ d.owing, c.Tells x.2
  effects : ∀ e ∈ d.effects, c.Shows e

structure Admits (c : Contract) (i : Input) : Prop where
  task : ∀ s t, i.task? s = some t → c.task t
  heard : ∀ header m, i = .receive header m → c.heard m

theorem Shows.mono (h : c.Extends c') {e : Effect} (he : c.Shows e) : c'.Shows e := by
  cases e with
  | sent t m => exact h.sent m he
  | result t o =>
      cases o with
      | success v => exact h.value v he
      | failure cause => trivial
  | _ => trivial

theorem Holds.mono (h : c.Extends c') {d : Desk} (hd : c.Holds d) : c'.Holds d where
  queue s :=
    { running := fun r hr => h.activity _ ((hd.queue s).running r hr)
      waiting := fun w hw => h.task _ ((hd.queue s).waiting w hw)
      events := fun e he => by
        have hposts := (hd.queue s).events e he
        cases e with
        | message job header m => exact h.heard m hposts
        | expiry job cookie => trivial }
  owing x hx := by
    have htells := hd.owing x hx
    obtain ⟨t, o⟩ := x
    cases o with
    | success v => exact h.value v htells
    | failure cause => trivial
  effects e he := (hd.effects e he).mono h

section Steps

variable {i : Input} {d d' : Desk} {s : Service} {q : JobQueue} {r : Running} {h : Hub} {move : Move Activity}
  {p : Progress}

/-- What comes of an allowed step keeps to the contract. -/
theorem Allows.follows (hm : c.Allows move) (ha : c.activity r.activity) (hf : r.Follows s h move p) :
    (∀ r', p.standing.running? = some r' → c.activity r'.activity) ∧
      (∀ x ∈ p.standing.owed s, c.Tells x.2) ∧ ∀ e ∈ p.effects, c.Shows e := by
  have hreport : ∀ f, ∀ e ∈ r.report s f, c.Shows e := by
    intro f e he
    obtain ⟨x, _, rfl⟩ := Running.mem_report he
    trivial
  have hsent : ∀ m : Option Message, (∀ x, m = some x → c.sent x) →
      ∀ e ∈ m.toList.map (Effect.sent (r.ticket s)), c.Shows e := by
    intro m hm e he
    obtain ⟨x, hx, rfl⟩ := List.mem_map.mp he
    exact hm x (Option.mem_toList.mp hx)
  cases hf with
  | ignored =>
      refine ⟨fun r' hr' => ?_, fun x hx => absurd hx List.not_mem_nil,
        fun e he => absurd he List.not_mem_nil⟩
      cases hr'
      exact ha
  | waited wait report message activity taken =>
      refine ⟨fun r' hr' => ?_, fun x hx => absurd hx List.not_mem_nil, fun e he => ?_⟩
      · cases hr'
        exact hm.activity _ rfl
      · exact (List.mem_append.mp he).elim (hreport _ e) (hsent _ (fun x hx => hm.sent x hx) e)
  | broken wait report m activity refused =>
      refine ⟨nofun, fun x hx => ?_, fun e he => ?_⟩
      · rw [List.mem_singleton.mp hx]
        trivial
      · rcases List.mem_append.mp he with he | he
        · exact hreport _ e he
        · rw [List.mem_singleton.mp he]
          trivial
  | finished message report outcome taken =>
      refine ⟨nofun, fun x hx => ?_, fun e he => ?_⟩
      · rw [List.mem_singleton.mp hx]
        cases outcome with
        | success v => exact hm.value v rfl
        | failure cause => trivial
      · exact (List.mem_append.mp he).elim (hsent _ (fun x hx => hm.sent x hx) e) (hreport _ e)
  | failed m report outcome refused =>
      refine ⟨nofun, fun x hx => ?_, fun e he => ?_⟩
      · rw [List.mem_singleton.mp hx]
        trivial
      · rw [List.mem_singleton.mp he]
        trivial

theorem Holds.due (hl : c.Lawful) (hd : c.Holds d) (due : Desk.Due d s q r h move) :
    c.activity r.activity ∧ c.Allows move ∧ (∀ w ∈ q.waiting.items, c.task w.task) ∧
      ∀ e ∈ q.events, c.Posts e := by
  have hq := hd.queue s
  cases due with
  | @hear r job header m rest running events concerns =>
      have ha := hq.running r running
      have hheard : c.heard m := hq.events (.message job header m) (by rw [events]; exact List.mem_cons_self)
      exact ⟨ha, hl.message _ _ m _ ha hheard, hq.waiting,
        fun e he => hq.events e (by rw [events]; exact List.mem_cons_of_mem _ he)⟩
  | @expire r cookie rest running events own =>
      have ha := hq.running r running
      exact ⟨ha, hl.timeout _ _ ha, hq.waiting,
        fun e he => hq.events e (by rw [events]; exact List.mem_cons_of_mem _ he)⟩
  | @start w rest idle waiting =>
      have ht : c.task w.task := hq.waiting w (by rw [waiting]; exact List.mem_cons_self)
      exact ⟨hl.initial _ _ ht, hl.start _ _ ht,
        fun w' hw' => hq.waiting w' (by rw [waiting]; exact List.mem_cons_of_mem _ hw'), hq.events⟩
  | @cancel r running =>
      have ha := hq.running r running
      exact ⟨ha, ⟨fun m hm => hl.farewell _ m ha hm, nofun, nofun⟩, hq.waiting, hq.events⟩

theorem queue_update {queue : Service → JobQueue} (hqueue : ∀ t, c.Queues (queue t)) (hq : c.Queues q) :
    ∀ t, c.Queues (update queue s q t) :=
  (forall_update_iff _ fun _ => c.Queues).mpr ⟨hq, fun t _ => hqueue t⟩

theorem Queues.post (hq : c.Queues q) {e : Event} (he : c.Posts e) : c.Queues (q.post e) where
  running := hq.running
  waiting := hq.waiting
  events x hx := (List.mem_append.mp hx).elim (hq.events x) fun hx => List.mem_singleton.mp hx ▸ he

theorem Holds.step (hl : c.Lawful) (hd : c.Holds d) (hi : c.Admits i) (hs : Desk.Step i d d') :
    c.Holds d' := by
  cases hs with
  | @follow s q r h move due =>
      obtain ⟨ha, hm, hwaiting, hevents⟩ := hd.due hl due
      obtain ⟨hrunning, howed, heffects⟩ := hm.follows ha (r.follow_follows s h move)
      exact ⟨queue_update hd.queue ⟨hrunning, hwaiting, hevents⟩,
        fun x hx => (List.mem_append.mp hx).elim (hd.owing x) (howed x),
        fun e he => (List.mem_append.mp he).elim (hd.effects e) (heffects e)⟩
  | @skip s r e rest running events stray =>
      refine ⟨queue_update hd.queue ⟨(hd.queue s).running, (hd.queue s).waiting, fun x hx => ?_⟩,
        hd.owing, hd.effects⟩
      exact (hd.queue s).events x (by rw [events]; exact List.mem_cons_of_mem _ hx)
  | @clear s idle =>
      exact ⟨queue_update hd.queue ⟨(hd.queue s).running, (hd.queue s).waiting,
        fun e he => absurd he List.not_mem_nil⟩, hd.owing, hd.effects⟩
  | @tell t o rest owing =>
      refine ⟨hd.queue, fun x hx => hd.owing x (by rw [owing]; exact List.mem_cons_of_mem _ hx),
        fun e he => ?_⟩
      rcases List.mem_append.mp he with he | he
      · exact hd.effects e he
      · have htells : c.Tells o := hd.owing (t, o) (by rw [owing]; exact List.mem_cons_self)
        rw [List.mem_singleton.mp he]
        cases o with
        | success v => exact htells
        | failure cause => trivial
  | @enrol s task asked =>
      have hnew : c.Queues ((d.queue s).withWaiting ((d.queue s).waiting.items ++
          [⟨(d.queue s).submitted, d.hub.handlers.freshOwner, task⟩])).counted := by
        refine ⟨(hd.queue s).running, fun w hw => ?_, (hd.queue s).events⟩
        rcases List.mem_append.mp hw with hw | hw
        · exact (hd.queue s).waiting w hw
        · rw [List.mem_singleton.mp hw]
          exact hi.task s task asked
      refine ⟨?_, hd.owing, hd.effects⟩
      rw [Desk.enrol_queue]
      exact queue_update hd.queue hnew
  | @turnAway s task asked busy =>
      refine ⟨queue_update hd.queue ⟨(hd.queue s).running, (hd.queue s).waiting, (hd.queue s).events⟩,
        hd.owing, fun e he => ?_⟩
      rcases List.mem_append.mp he with he | he
      · exact hd.effects e he
      · rw [List.mem_singleton.mp he]
        trivial
  | @callOff s w before after waiting =>
      refine ⟨queue_update hd.queue ⟨(hd.queue s).running,
        fun x hx => (hd.queue s).waiting x ?_, (hd.queue s).events⟩, fun x hx => ?_, hd.effects⟩
      · rw [waiting]
        exact ((List.sublist_cons_self w after).append_left before).subset hx
      · rcases List.mem_append.mp hx with hx | hx
        · exact hd.owing x hx
        · rw [List.mem_singleton.mp hx]
          trivial
  | fire armed due => exact ⟨queue_update hd.queue ((hd.queue _).post trivial), hd.owing, hd.effects⟩
  | @deliver header m x received subscribed =>
      obtain hsame | ⟨s, job, hpost⟩ := d.deliver_cases header m x
      · rwa [hsame]
      · rw [hpost]
        exact ⟨queue_update hd.queue ((hd.queue _).post (hi.heard header m received)), hd.owing, hd.effects⟩

end Steps

/-- An engine whose jobs keep to a contract keeps to it. -/
theorem engine_step (hl : c.Lawful) {i : Input} (hi : c.Admits i) (e : Engine) {effects : List Effect}
    {asked : Service → List Task} (hd : c.Holds (e.desk effects asked)) :
    c.Holds ((e.step i).engine.desk (effects ++ (e.step i).effects) (Engine.askedBy asked i)) :=
  Engine.step_keeps (P := c.Holds)
    (fun _ _ h hs => h.step hl hi hs) e effects asked ⟨hd.queue, hd.owing, hd.effects⟩

theorem holds_idle (c : Contract) (config : Config) (link : Link) (clock : Instant) :
    c.Holds ((Engine.idle config link clock).desk [] fun _ => []) where
  queue s := by
    have hempty : ((Engine.idle config link clock).desk [] fun _ => []).queue s = .empty := by
      obtain _ | ⟨_ | _⟩ := s <;> rfl
    rw [hempty]
    exact ⟨nofun, fun w hw => absurd hw List.not_mem_nil, fun e he => absurd he List.not_mem_nil⟩
  owing x hx := absurd hx List.not_mem_nil
  effects e he := absurd he List.not_mem_nil

end Contract

end GroundLink
