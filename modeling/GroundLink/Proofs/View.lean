import GroundLink.Proofs.Attendance

/-! What one queue can see of an engine. A view of a desk (`Desk.view`) has all that a queue's
jobs depend on and all that is seen of them, but not the names of timers and owners, which depend
on what the other queues do. -/

namespace GroundLink

open Function

/-- The queue a subscriber belongs to. -/
def Subscriber.service : Subscriber → Service
  | commands => .commands
  | job ticket _ => ticket.service

namespace Event

/-- An event without the name of the timer it is about. -/
def bare : Event → Event
  | message job header m => .message job header m
  | expiry job _ => .expiry job 0

/-- An event without names, and whether it concerns the job under way. -/
def sight (j : Option Running) (e : Event) : Event × Bool := (e.bare, j.any fun r => decide (e.Concerns r))

end Event

/-- The timers of a queue, without their names. -/
def Timers.alarms (t : Timers Ticket) (s : Service) : List (Instant × Span × Ticket) :=
  (t.armed.filter (·.tag.service = s)).map fun x => (x.deadline, x.span, x.tag)

/-- The handlers of a queue, without their owners. -/
def Handlers.ears (t : Handlers Kind Subscriber) (s : Service) : List (Kind × Subscriber) :=
  (t.entries.filter (·.action.service = s)).map fun x => (x.kind, x.action)

/-- What a queue can see of the hub. -/
structure Face where
  clock : Instant
  timeout : Span
  commandRetries : Nat
  missionRetries : Nat
  link : Link
  alarms : List (Instant × Span × Ticket)
  ears : List (Kind × Subscriber)

def Hub.face (h : Hub) (s : Service) : Face :=
  ⟨h.clock, h.timeout, h.commandRetries, h.missionRetries, h.link, h.timers.alarms s, h.handlers.ears s⟩

/-- What a queue can see of a desk, and what is seen of the queue. -/
structure View where
  face : Face
  submitted : Nat
  running : Option (Nat × Activity)
  waiting : List (Nat × Task)
  events : List (Event × Bool)
  owing : List (Ticket × Outcome)
  effects : List Effect

def Desk.view (d : Desk) (s : Service) : View where
  face := d.hub.face s
  submitted := (d.queue s).submitted
  running := (d.queue s).running.map fun r => (r.number, r.activity)
  waiting := (d.queue s).waiting.items.map fun w => (w.number, w.task)
  events := (d.queue s).events.map (Event.sight (d.queue s).running)
  owing := d.owing.filter (·.1.service = s)
  effects := d.effects.filter (·.job.service = s)

namespace Timers

variable {t : Timers Ticket} {s : Service} {c : Cookie}

theorem alarms_remove_other (h : ∀ x ∈ t.armed, x.cookie = c → x.tag.service ≠ s) :
    (t.remove c).alarms s = t.alarms s := by
  rw [alarms, remove, List.filter_filter]
  congr 1
  refine List.filter_congr fun x hx => ?_
  by_cases hs : x.tag.service = s
  · have hc : x.cookie ≠ c := fun hc => h x hx hc hs
    simp [hs, hc]
  · simp [hs]

theorem alarms_refresh_other (now : Instant) (h : ∀ x ∈ t.armed, x.cookie = c → x.tag.service ≠ s) :
    (t.refresh now c).alarms s = t.alarms s := by
  obtain ⟨armed, issued⟩ := t
  induction armed with
  | nil => rfl
  | cons x rest ih =>
      have hrest := ih fun y hy => h y (List.mem_cons_of_mem _ hy)
      simp only [alarms, refresh, List.map_cons, List.filter_cons] at hrest ⊢
      by_cases hc : x.cookie = c
      · have hs := h x List.mem_cons_self hc
        simpa [hc, hs] using hrest
      · by_cases hs : x.tag.service = s <;> simpa [hc, hs] using hrest

theorem alarms_refresh_own (now : Instant) (h : ∀ x ∈ t.armed, x.tag.service = s → x.cookie = c) :
    (t.refresh now c).alarms s = (t.alarms s).map fun a => (now.after a.2.1, a.2) := by
  obtain ⟨armed, issued⟩ := t
  induction armed with
  | nil => rfl
  | cons x rest ih =>
      have hrest := ih fun y hy => h y (List.mem_cons_of_mem _ hy)
      simp only [alarms, refresh, List.map_cons, List.filter_cons] at hrest ⊢
      by_cases hs : x.tag.service = s
      · have hc := h x List.mem_cons_self hs
        simpa [hc, hs] using hrest
      · by_cases hc : x.cookie = c <;> simpa [hc, hs] using hrest

theorem alarms_add (now : Instant) (span : Span) (tag : Ticket) :
    (t.add now span tag).alarms s =
      t.alarms s ++ if tag.service = s then [(now.after span, span, tag)] else [] := by
  by_cases hs : tag.service = s <;> simp [alarms, hs]

theorem mem_alarms_iff {a : Instant × Span × Ticket} :
    a ∈ t.alarms s ↔ ∃ x ∈ t.armed, x.tag.service = s ∧ (x.deadline, x.span, x.tag) = a := by
  simp [alarms, and_assoc]

theorem alarms_eq_nil (h : ∀ x ∈ t.armed, x.tag.service ≠ s) : t.alarms s = [] := by
  rw [alarms, List.map_eq_nil_iff, List.filter_eq_nil_iff]
  exact fun x hx => by simpa using h x hx

end Timers

namespace Handlers

variable {t : Handlers Kind Subscriber} {s : Service} {o : Owner}

theorem ears_unregisterAll_other (h : ∀ x ∈ t.entries, x.owner = o → x.action.service ≠ s) :
    (t.unregisterAll o).ears s = t.ears s := by
  rw [ears, unregisterAll, List.filter_filter]
  congr 1
  refine List.filter_congr fun x hx => ?_
  by_cases hs : x.action.service = s
  · have ho : x.owner ≠ o := fun ho => h x hx ho hs
    simp [hs, ho]
  · simp [hs]

theorem ears_unregisterAll_own (h :
    ∀ x ∈ t.entries, x.action.service = s → (x.owner = o ↔ x.action ≠ .commands)) :
    (t.unregisterAll o).ears s = (t.ears s).filter (·.2 = .commands) := by
  rw [ears, unregisterAll, List.filter_filter, ears, List.filter_map, List.filter_filter]
  congr 1
  refine List.filter_congr fun x hx => ?_
  by_cases hs : x.action.service = s
  · have ho := h x hx hs
    by_cases ha : x.action = .commands <;> simp [hs, ho, ha]
  · simp [hs]

theorem ears_registerAll (kinds : List Kind) (action : Subscriber) :
    (t.registerAll kinds o action).ears s =
      t.ears s ++ if action.service = s then kinds.map fun kind => (kind, action) else [] := by
  rw [ears, registerAll_entries, List.filter_append, List.map_append]
  congr 1
  by_cases hs : action.service = s <;> simp [hs, List.filter_map, Function.comp_def]

end Handlers

namespace Hub

variable {h : Hub} {s : Service} {c : Option Cookie} {t : Ticket}

theorem face_of_link (hlink : h.link.offered = h.link) (m : Option Message) :
    (h.offered m).face s = h.face s := by
  cases m with
  | none => rfl
  | some m => simp only [offered, hlink]

theorem setting_of_face {h' : Hub} (hface : h.face s = h'.face s) : h.setting s = h'.setting s := by
  have htimeout : h.timeout = h'.timeout := congrArg Face.timeout hface
  have hcommands : h.commandRetries = h'.commandRetries := congrArg Face.commandRetries hface
  have hmission : h.missionRetries = h'.missionRetries := congrArg Face.missionRetries hface
  have hlink : h.link = h'.link := congrArg Face.link hface
  cases s <;> simp only [Hub.setting, Hub.policy, htimeout, hcommands, hmission, hlink]

/-- Whether a queue has nothing to do with a timer that is named so. -/
def Foreign (h : Hub) (s : Service) (c : Option Cookie) : Prop :=
  ∀ x ∈ h.timers.armed, c = some x.cookie → x.tag.service ≠ s

theorem Foreign.disarm (hc : h.Foreign s c) : (h.disarm c).face s = h.face s := by
  cases c with
  | none => rfl
  | some c =>
      have halarms := Timers.alarms_remove_other fun x hx hxc => hc x hx (congrArg some hxc.symm)
      simp only [Hub.disarm, face, halarms]

theorem Foreign.refresh (hc : h.Foreign s c) : (h.refresh c).face s = h.face s := by
  cases c with
  | none => rfl
  | some c =>
      have halarms := Timers.alarms_refresh_other h.clock fun x hx hxc => hc x hx (congrArg some hxc.symm)
      simp only [Hub.refresh, face, halarms]

theorem face_arm_other (ht : t.service ≠ s) (span : Span) : (h.arm t span).face s = h.face s := by
  simp only [arm, face, Timers.alarms_add, if_neg ht, List.append_nil]

theorem Foreign.await (hc : h.Foreign s c) (ht : t.service ≠ s) (w : Wait) :
    (h.await t c w).2.face s = h.face s := by
  cases w with
  | restart span => exact (face_arm_other ht span).trans hc.disarm
  | extend => exact hc.refresh

theorem Foreign.retire (hc : h.Foreign s c) {o : Owner}
    (ho : ∀ x ∈ h.handlers.entries, x.owner = o → x.action.service ≠ s) :
    (h.retire o c).face s = h.face s := by
  rw [← hc.disarm]
  have hhandlers : (h.disarm c).handlers = h.handlers := by cases c <;> rfl
  have hears := Handlers.ears_unregisterAll_other (t := (h.disarm c).handlers) (by rwa [hhandlers])
  simp only [Hub.retire, face, hears]

/-- The timer a step has armed or left is foreign too. -/
theorem Foreign.awaited (hc : h.Foreign s c) (ht : t.service ≠ s)
    (hissued : ∀ x ∈ h.timers.armed, x.cookie < h.timers.issued) (w : Wait) :
    (h.await t c w).2.Foreign s (h.await t c w).1 := by
  intro x hx hxc
  cases w with
  | extend =>
      cases c with
      | none => cases hxc
      | some c =>
          obtain ⟨y, hy, hcookie, htag, _⟩ := Timers.mem_refresh hx
          rw [htag]
          exact hc y hy (hxc.trans (congrArg some hcookie))
  | restart span =>
      rcases List.mem_append.mp hx with hold | hnew
      · -- no timer of before is named like the new one
        have hmem : x ∈ h.timers.armed := by
          cases c with
          | none => exact hold
          | some c => exact (Timers.mem_remove.mp hold).1
        have hfresh : h.timers.issued = x.cookie := by
          cases c <;> exact Option.some.inj hxc
        exact absurd (hissued x hmem) (hfresh ▸ Nat.lt_irrefl _)
      · rw [List.mem_singleton.mp hnew]
        exact ht

end Hub

/-- A step leaves the hub as it is, timers and handlers apart. -/
theorem Running.Follows.around {r : Running} {s : Service} {h : Hub} {move : Move Activity} {p : Progress}
    (hf : Follows r s h move p) (hlink : h.link.offered = h.link) :
    p.hub = { h with timers := p.hub.timers, handlers := p.hub.handlers } := by
  have hawait : ∀ (t : Ticket) (c : Option Cookie) (w : Wait),
      (h.await t c w).2 =
        { h with timers := (h.await t c w).2.timers, handlers := (h.await t c w).2.handlers } := by
    intro t c w
    cases w <;> cases c <;> rfl
  have hoffered : ∀ (h' : Hub) (m : Option Message),
      h' = { h with timers := h'.timers, handlers := h'.handlers } →
      h'.offered m = { h with timers := (h'.offered m).timers, handlers := (h'.offered m).handlers } := by
    intro h' m hsame
    cases m with
    | none => exact hsame
    | some m =>
        rw [hsame]
        simp only [Hub.offered, hlink]
  have hretire : ∀ (h' : Hub) (o : Owner) (c : Option Cookie),
      h' = { h with timers := h'.timers, handlers := h'.handlers } →
        h'.retire o c = { h with timers := (h'.retire o c).timers, handlers :=
        (h'.retire o c).handlers } := by
    intro h' o c hsame
    rw [hsame]
    cases c <;> rfl
  cases hf with
  | ignored => rfl
  | waited wait report message activity taken => exact hoffered _ _ (hawait _ _ _)
  | broken wait report m activity refused => exact hretire _ _ _ (hoffered _ _ (hawait _ _ _))
  | finished message report outcome taken => exact hretire _ _ _ (hoffered _ _ rfl)
  | failed m report outcome refused => exact hretire _ _ _ (hoffered _ _ rfl)

end GroundLink
