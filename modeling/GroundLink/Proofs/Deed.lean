import GroundLink.Proofs.Attendance
import GroundLink.Proofs.Taking

/-! What is done in a queue: events are left for it and taken from it, jobs start, make steps and are called
off, and submissions are turned away. `Desk.Act` is the small steps of one queue with what they add to its
log; whatever is done in one queue leaves the others alone (`Desk.Act.aside`). -/

namespace GroundLink

open Function Relation

/-- The end a step brings to a job. -/
def Standing.ended? : Standing → Option Ended
  | running _ => none
  | ended e => some e

/-- What can be done in a queue. -/
inductive Deed
  /-- An event is left for the queue. -/
  | posted (event : Event)
  /-- An event is taken from the queue that is not for its job under way. -/
  | dropped (event : Event)
  | heeded (taking : Taking)
  | started (job : Waiting) (hub : Hub)
  /-- The job under way is called off. -/
  | cancelled (job : Running) (hub : Hub)
  /-- A job that waits is called off. -/
  | calledOff (job : Waiting)
  /-- A submission uses up a number but may not wait. -/
  | turnedAway (number : Nat)

namespace Deed

/-- The job that makes a step, with the hub it finds. -/
def actor? : Deed → Option (Nat × Hub)
  | heeded x => some (x.job.number, x.hub)
  | started w h => some (w.number, h)
  | cancelled r h => some (r.number, h)
  | _ => none

/-- What comes of the step a job makes. -/
def progress? (s : Service) : Deed → Option Progress
  | heeded x => some (x.job.take s x.hub x.event)
  | started w h => some (w.start s h)
  | cancelled r h => some (r.cancel s h)
  | _ => none

/-- What is seen of a job while something is done. -/
def shown (s : Service) (x : Deed) : List Effect := (x.progress? s).toList.flatMap (·.effects)

/-- The job that ends when something is done, and how. -/
def ends? (s : Service) : Deed → Option Ended
  | calledOff w => some ⟨w.number, .failed .cancelled⟩
  | turnedAway number => some ⟨number, .failed .busy⟩
  | x => (x.progress? s).bind (·.standing.ended?)

end Deed

/-- How a job ended, of which that is told. -/
def Effect.ended? (s : Service) : Effect → Option Ended
  | result t o => if t.service = s then some ⟨t.number, o⟩ else none
  | _ => none

/-- Whether something is seen of a queue's job before it ends. -/
def Effect.isOf (s : Service) (x : Effect) : Bool := decide (x.job.service = s) && !x.isResult

namespace Running

def deed (r : Running) (h : Hub) (e : Event) : Deed := if e.Concerns r then .heeded ⟨r, h, e⟩ else .dropped e

end Running

namespace Deed

/-- The job that starts. -/
def begins? : Deed → Option Nat
  | started w _ => some w.number
  | _ => none

/-- The job that was started and ends. -/
def concludes? (s : Service) (x : Deed) : Option Nat :=
  (x.progress? s).bind fun p => p.standing.ended?.map (·.number)

/-- The job that ends without having been started. -/
def passes? : Deed → Option Nat
  | calledOff w => some w.number
  | turnedAway number => some number
  | _ => none

def posts? : Deed → Option Event
  | posted e => some e
  | _ => none

/-- The event that is taken from the queue. -/
def takes? : Deed → Option Event
  | heeded x => some x.event
  | dropped e => some e
  | _ => none

/-- The jobs started in a log, in order. -/
def begun (log : List Deed) : List Nat := log.filterMap begins?

def concluded (s : Service) (log : List Deed) : List Nat := log.filterMap (concludes? s)

def passedOver (log : List Deed) : List Nat := log.filterMap passes?

def postings (log : List Deed) : List Event := log.filterMap posts?

def taken (log : List Deed) : List Event := log.filterMap takes?

/-- Whether all that is done in a log goes with what was done before. -/
def Each (R : List Deed → Deed → Prop) (log : List Deed) : Prop :=
  ∀ past x rest, log = past ++ x :: rest → R past x

variable {R : List Deed → Deed → Prop} {log : List Deed}

theorem each_nil : Each R [] := by
  intro past x rest h
  cases past <;> cases h

theorem Each.append (h : Each R log) {more : List Deed} (hmore : Each (fun past => R (log ++ past)) more) :
    Each R (log ++ more) := by
  intro past x rest heq
  rcases List.append_eq_append_iff.mp heq with ⟨past', rfl, hsplit⟩ | ⟨left, hsplit, hrest⟩
  · exact hmore past' x rest hsplit
  · cases left with
    | nil =>
        obtain rfl : log = past := by simpa using hsplit
        simpa using hmore [] x rest hrest.symm
    | cons y left =>
        cases hrest
        exact h past x left hsplit

theorem Each.left {R : List Deed → Deed → Prop} {more : List Deed} (h : Each R (log ++ more)) :
    Each R log := by
  rintro past x rest rfl
  exact h past x (rest ++ more) (by rw [List.append_assoc, List.cons_append])

theorem Each.concat (h : Each R log) {x : Deed} (hx : R log x) : Each R (log ++ [x]) := by
  refine h.append fun past y rest heq => ?_
  obtain ⟨rfl, hone⟩ | ⟨_, hnil⟩ := List.append_eq_singleton_iff.mp heq.symm
  · cases hone
    rwa [List.append_nil]
  · cases hnil

end Deed

/-- What a subscriber leaves for a queue when it gets a message. -/
def Subscriber.event? (s : Service) (header : Header) (m : Message) : Subscriber → Option Event
  | commands => if .commands = s then some (.message none header m) else none
  | job ticket system =>
    if ticket.service = s ∧ (system = 0 ∨ header.sender.system = system) then
      some (.message (some ticket.number) header m)
    else none

/-- What a step of a job makes of the hub it finds: timers and handlers that are new are its own. -/
structure Hub.Serves (t : Ticket) (h h' : Hub) : Prop where
  timers : ∀ x ∈ h'.timers.armed,
    (∃ y ∈ h.timers.armed, y.cookie = x.cookie ∧ y.tag = x.tag) ∨ x.tag = t ∧ h.timers.issued ≤ x.cookie
  handlers : ∀ x ∈ h'.handlers.entries, x ∈ h.handlers.entries ∨ ∃ system, x.action = .job t system

namespace Hub

variable {h h' : Hub} {t : Ticket}

/-- Whether every timer of a hub was one of another. -/
def Spares (h h' : Hub) : Prop :=
  ∀ x ∈ h'.timers.armed, ∃ y ∈ h.timers.armed, y.cookie = x.cookie ∧ y.tag = x.tag

theorem spares_disarm (h : Hub) (c : Option Cookie) : h.Spares (h.disarm c) := by
  cases c with
  | none => exact fun x hx => ⟨x, hx, rfl, rfl⟩
  | some c => exact fun x hx => ⟨x, (Timers.mem_remove.mp hx).1, rfl, rfl⟩

theorem spares_refresh (h : Hub) (c : Option Cookie) : h.Spares (h.refresh c) := by
  cases c with
  | none => exact fun x hx => ⟨x, hx, rfl, rfl⟩
  | some c =>
      intro x hx
      obtain ⟨y, hy, hc, ht, _⟩ := Timers.mem_refresh hx
      exact ⟨y, hy, hc.symm, ht.symm⟩

theorem issued_disarm (h : Hub) (c : Option Cookie) : (h.disarm c).timers.issued = h.timers.issued := by
  cases c <;> rfl

/-- A timer that a job takes is new and its own. -/
theorem timers_await (h : Hub) (t : Ticket) (c : Option Cookie) (w : Wait) :
    ∀ x ∈ (h.await t c w).2.timers.armed,
      (∃ y ∈ h.timers.armed, y.cookie = x.cookie ∧ y.tag = x.tag) ∨
        x.tag = t ∧ h.timers.issued ≤ x.cookie := by
  intro x hx
  cases w with
  | restart span =>
      rcases List.mem_append.mp hx with hold | hnew
      · exact .inl (h.spares_disarm c x hold)
      · rw [List.mem_singleton.mp hnew]
        exact .inr ⟨rfl, (h.issued_disarm c).ge⟩
  | extend => exact .inl (h.spares_refresh c x hx)

end Hub

/-- A step ends its job as its move says, or because the link refuses a message. -/
theorem Running.Follows.ended {r : Running} {s : Service} {h : Hub} {move : Move Activity} {p : Progress}
    (hf : r.Follows s h move p) {x : Ended} (hx : p.standing.ended? = some x) :
    (∃ message report, move = .finish message report x.outcome) ∨
      x.outcome = .failure r.activity.task.refusal := by
  cases hf with
  | ignored => cases hx
  | waited wait report message activity taken => cases hx
  | broken wait report m activity refused =>
      cases hx
      exact .inr rfl
  | finished message report outcome taken =>
      cases hx
      exact .inl ⟨message, report, rfl⟩
  | failed m report outcome refused =>
      cases hx
      exact .inr rfl

theorem Running.Follows.serves {r : Running} {s : Service} {h : Hub} {move : Move Activity} {p : Progress}
    (hf : r.Follows s h move p) : h.Serves (r.ticket s) p.hub := by
  refine ⟨?_, fun x hx => .inl ?_⟩
  · cases hf with
    | ignored => exact fun x hx => .inl ⟨x, hx, rfl, rfl⟩
    | waited wait report message activity taken =>
        intro x hx
        rw [Hub.offered_timers] at hx
        exact h.timers_await _ _ _ x hx
    | broken wait report m activity refused =>
        intro x hx
        obtain ⟨y, hy, hc, ht⟩ := Hub.spares_disarm _ _ x hx
        rw [Hub.offered_timers] at hy
        rw [← hc, ← ht]
        exact h.timers_await _ _ _ y hy
    | finished message report outcome taken =>
        intro x hx
        obtain ⟨y, hy, hc, ht⟩ := Hub.spares_disarm _ _ x hx
        rw [Hub.offered_timers] at hy
        exact .inl ⟨y, hy, hc, ht⟩
    | failed m report outcome refused =>
        intro x hx
        obtain ⟨y, hy, hc, ht⟩ := Hub.spares_disarm _ _ x hx
        rw [Hub.offered_timers] at hy
        exact .inl ⟨y, hy, hc, ht⟩
  · rw [hf.handlers] at hx
    split at hx
    · exact hx
    · exact (List.mem_filter.mp hx).1

/-- Whatever step a job makes, it follows some move, on the hub it finds or on one where it
hears what it listens to. -/
theorem Deed.follows {x : Deed} {s : Service} {n : Nat} {h : Hub} {p : Progress} (ha : x.actor? = some (n, h))
    (hp : x.progress? s = some p) :
    ∃ (r : Running) (h' : Hub) (move : Move Activity), r.number = n ∧ r.Follows s h' move p ∧
      h'.timers = h.timers ∧ h.Serves ⟨s, n⟩ p.hub := by
  cases x with
  | heeded x =>
      obtain ⟨r, hub, e⟩ := x
      cases ha
      cases hp
      have ht := r.take_takes s hub e
      generalize r.take s hub e = p at ht
      cases ht with
      | stray hstray => exact ⟨r, hub, .ignore, rfl, .ignored, rfl, Running.Follows.ignored.serves⟩
      | heard concerns => exact ⟨r, hub, _, rfl, r.follow_follows _ _ _, rfl, (r.follow_follows _ _ _).serves⟩
      | expired own =>
          have hf :=
            ({ r with cookie := none } : Running).follow_follows s hub (r.activity.onTimeout (hub.setting s))
          exact ⟨{ r with cookie := none }, hub, _, rfl, hf, rfl, hf.serves⟩
  | started w hub =>
      cases ha
      cases hp
      have hf :=
        Running.follow_follows (w.opening (h.setting s)) s (w.subscribe s h) (w.task.start (h.setting s))
      refine ⟨_, _, _, rfl, hf, rfl, hf.serves.timers, fun y hy => ?_⟩
      rcases hf.serves.handlers y hy with hold | hown
      · rw [Waiting.subscribe, Handlers.registerAll_entries] at hold
        rcases List.mem_append.mp hold with hold | hnew
        · exact .inl hold
        · obtain ⟨kind, _, rfl⟩ := List.mem_map.mp hnew
          exact .inr ⟨_, rfl⟩
      · exact .inr hown
  | cancelled r hub =>
      cases ha
      cases hp
      exact ⟨r, h, _, rfl, r.follow_follows _ _ _, rfl, (r.follow_follows _ _ _).serves⟩
  | _ => cases ha

namespace Desk

/-- The small steps of a queue, with what they add to its log. -/
inductive Act (i : Input) (s : Service) (d : Desk) : List Deed → Desk → Prop
  | heed {r : Running} {e : Event} {rest : List Event} (running : (d.queue s).running = some r)
      (events : (d.queue s).events = e :: rest) (concerns : e.Concerns r) :
      Act i s d [.heeded ⟨r, d.hub, e⟩] (d.after s ((d.queue s).withEvents rest) (r.take s d.hub e))
  | skip {r : Running} {e : Event} {rest : List Event} (running : (d.queue s).running = some r)
      (events : (d.queue s).events = e :: rest) (stray : ¬e.Concerns r) :
      Act i s d [.dropped e] (d.put s ((d.queue s).withEvents rest))
  | clear (idle : (d.queue s).running = none) :
      Act i s d ((d.queue s).events.map .dropped) (d.put s ((d.queue s).withEvents []))
  | start {w : Waiting} {rest : List Waiting} (idle : (d.queue s).running = none)
      (events : (d.queue s).events = [])
      (waiting : (d.queue s).waiting.items = w :: rest) :
      Act i s d [.started w d.hub] (d.after s ((d.queue s).withWaiting rest) (w.start s d.hub))
  | cancel {r : Running} (running : (d.queue s).running = some r) :
      Act i s d [.cancelled r d.hub] (d.after s (d.queue s) (r.cancel s d.hub))
  | tell {t : Ticket} {o : Outcome} {rest : List (Ticket × Outcome)} (owing : d.owing = (t, o) :: rest) :
      Act i s d [] (d.tell t o rest)
  | enrol {task : Task} (asked : i.task? s = some task) : Act i s d [] (d.enrol s task)
  | turnAway {task : Task} (asked : i.task? s = some task) (busy : (d.queue s).isIdle = false)
      (settled : d.owing = []) : Act i s d [.turnedAway (d.queue s).submitted] (d.turnAway s task)
  | callOff {w : Waiting} {before after : List Waiting}
      (waiting : (d.queue s).waiting.items = before ++ w :: after) :
      Act i s d [.calledOff w] (d.callOff s w (before ++ after))
  | fire {x : Timer Ticket} (armed : x ∈ d.hub.timers.armed) (due : x.deadline ≤ d.hub.clock)
      (own : x.tag.service = s) : Act i s d [.posted (.expiry x.tag.number x.cookie)] (d.fire x)
  | deliver {header : Header} {m : Message} {x : Subscriber} {e : Event} (received : i = .receive header m)
      (subscribed : x ∈ d.hub.handlers.matching m.kind) (heard : x.event? s header m = some e) :
      Act i s d [.posted e] (d.post s e)

variable {i : Input} {s : Service} {d d' : Desk} {deeds : List Deed}

/-- A message that is delivered is left for one queue or comes to nothing. -/
theorem deliver_event? (d : Desk) (header : Header) (m : Message) (x : Subscriber) :
    d.deliver header m x = d ∨ ∃ t e, x.event? t header m = some e ∧ d.deliver header m x = d.post t e := by
  cases x with
  | commands => exact .inr ⟨.commands, .message none header m, by rw [Subscriber.event?, if_pos rfl], rfl⟩
  | job ticket system =>
      by_cases hsystem : system = 0 ∨ header.sender.system = system
      · exact .inr ⟨ticket.service, _, if_pos ⟨rfl, hsystem⟩, if_pos hsystem⟩
      · exact .inl (if_neg hsystem)

theorem deliver_of_event? {header : Header} {m : Message} {x : Subscriber} {e : Event}
    (h : x.event? s header m = some e) : d.deliver header m x = d.post s e := by
  cases x with
  | commands =>
      rw [Subscriber.event?, Option.ite_none_right_eq_some] at h
      obtain ⟨rfl, he⟩ := h
      cases he
      rfl
  | job ticket system =>
      rw [Subscriber.event?, Option.ite_none_right_eq_some] at h
      obtain ⟨⟨rfl, hsystem⟩, he⟩ := h
      cases he
      exact if_pos hsystem

theorem queue_post_self (d : Desk) (s : Service) (e : Event) : (d.post s e).queue s = (d.queue s).post e :=
  update_self _ _ _

theorem Act.take {r : Running} {e : Event} {rest : List Event} (hr : (d.queue s).running = some r)
    (he : (d.queue s).events = e :: rest) :
    Act i s d [r.deed d.hub e] (d.after s ((d.queue s).withEvents rest) (r.take s d.hub e)) := by
  by_cases hc : e.Concerns r
  · rw [Running.deed, if_pos hc]
    exact .heed hr he hc
  · rw [Running.deed, if_neg hc, Running.take_stray hc, after_running d s ((d.queue s).withEvents rest) hr]
    exact .skip hr he hc

theorem Act.step (h : Act i s d deeds d') : Step i d d' := by
  cases h with
  | heed running events concerns => exact step_take running events
  | skip running events stray => exact .skip running events stray
  | clear idle => exact .clear idle
  | start idle events waiting => exact .follow (.start idle waiting)
  | cancel running => exact .follow (.cancel running)
  | tell owing => exact .tell owing
  | enrol asked => exact .enrol asked
  | turnAway asked busy settled => exact .turnAway asked busy
  | callOff waiting => exact .callOff waiting
  | fire armed due own => exact .fire armed due
  | deliver received subscribed heard =>
      rw [← deliver_of_event? heard]
      exact .deliver received subscribed

/-- How the jobs of a queue ended, those first of which that was told. -/
def endings (d : Desk) (s : Service) : List Ended :=
  (d.effects ++ d.owing.map fun x => Effect.result x.1 x.2).filterMap (Effect.ended? s)

/-- What is seen of the jobs of a queue before they end. -/
def seen (d : Desk) (s : Service) : List Effect := d.effects.filter (Effect.isOf s)

section After

variable {t : Service} {r : Running} {h : Hub} {move : Move Activity} {p : Progress}

theorem endings_after (d : Desk) (s : Service) (q : JobQueue) (hf : r.Follows t h move p) :
    (d.after t q p).endings s = d.endings s ++ if t = s then p.standing.ended?.toList else [] := by
  have hnone : p.effects.filterMap (Effect.ended? s) = [] := by
    rw [List.filterMap_eq_nil_iff]
    intro e he
    have hresult := (hf.effects he).2
    cases e <;> first | rfl | cases hresult
  have howed : ((p.standing.owed t).map fun x => Effect.result x.1 x.2).filterMap (Effect.ended? s) =
      if t = s then p.standing.ended?.toList else [] := by
    cases p.standing with
    | running r' => simp [Standing.owed, Standing.ended?]
    | ended x => by_cases ht : t = s <;> simp [Standing.owed, Standing.ended?, Ended.owed, Effect.ended?, ht]
  simp only [endings, after, List.filterMap_append, hnone, howed, List.nil_append, List.map_append,
    List.append_assoc]

theorem seen_after (d : Desk) (s : Service) (q : JobQueue) (hf : r.Follows t h move p) :
    (d.after t q p).seen s = d.seen s ++ if t = s then p.effects else [] := by
  rw [seen, after, List.filter_append]
  congr 1
  by_cases ht : t = s
  · rw [if_pos ht]
    refine List.filter_eq_self.mpr fun e he => ?_
    obtain ⟨hjob, hresult⟩ := hf.effects he
    simp [Effect.isOf, hjob, hresult, Running.ticket, ht]
  · rw [if_neg ht]
    refine List.filter_eq_nil_iff.mpr fun e he => ?_
    simp [Effect.isOf, (hf.effects he).1, Running.ticket, ht]

end After

theorem endings_tell {t : Ticket} {o : Outcome} {rest : List (Ticket × Outcome)}
    (h : d.owing = (t, o) :: rest) :
    (d.tell t o rest).endings s = d.endings s := by
  simp [endings, Desk.tell, h, List.append_assoc]

theorem seen_tell (d : Desk) (s : Service) (t : Ticket) (o : Outcome) (rest : List (Ticket × Outcome)) :
    (d.tell t o rest).seen s = d.seen s := by
  simp [seen, Desk.tell, Effect.isOf, Effect.isResult]

theorem endings_turnAway (h : d.owing = []) (t s : Service) (task : Task) :
    (d.turnAway t task).endings s =
      d.endings s ++ if t = s then [⟨(d.queue t).submitted, .failed .busy⟩] else [] := by
  have howing : (d.turnAway t task).owing = [] := h
  rw [endings, howing, endings, h, List.map_nil, List.append_nil, List.append_nil]
  by_cases ht : t = s <;> simp [Desk.turnAway, Effect.ended?, ht]

theorem seen_turnAway (d : Desk) (t s : Service) (task : Task) : (d.turnAway t task).seen s = d.seen s := by
  simp [seen, Desk.turnAway, Effect.isOf, Effect.isResult]

theorem endings_callOff (d : Desk) (t s : Service) (w : Waiting) (others : List Waiting) :
    (d.callOff t w others).endings s =
      d.endings s ++ if t = s then [⟨w.number, .failed .cancelled⟩] else [] := by
  by_cases ht : t = s <;> simp [endings, Desk.callOff, put, Effect.ended?, ht]

/-- A queue, as it is left alone while something is done in another. -/
structure Aside (s : Service) (d d' : Desk) : Prop where
  queue : d'.queue s = d.queue s
  asked : d'.asked s = d.asked s
  endings : d'.endings s = d.endings s
  seen : d'.seen s = d.seen s
  timers : ∀ x ∈ d'.hub.timers.armed, x.tag.service = s →
    ∃ y ∈ d.hub.timers.armed, y.cookie = x.cookie ∧ y.tag = x.tag

section Aside

variable {t : Service}

theorem Aside.put (hts : t ≠ s) (d : Desk) (q : JobQueue) : Aside s d (d.put t q) :=
  ⟨update_of_ne hts.symm _ _, rfl, rfl, rfl, fun x hx _ => ⟨x, hx, rfl, rfl⟩⟩

theorem Aside.after {n : Nat} {x : Deed} {p : Progress} (hts : t ≠ s) (q : JobQueue)
    (ha : x.actor? = some (n, d.hub)) (hp : x.progress? t = some p) : Aside s d (d.after t q p) := by
  obtain ⟨r, h, move, rfl, hf, _, hserves⟩ := Deed.follows ha hp
  refine ⟨update_of_ne hts.symm _ _, rfl, ?_, ?_, fun y hy hs => ?_⟩
  · rw [endings_after d s q hf, if_neg hts, List.append_nil]
  · rw [seen_after d s q hf, if_neg hts, List.append_nil]
  · rcases hserves.timers y hy with hold | ⟨htag, _⟩
    · exact hold
    · rw [htag] at hs
      exact absurd hs hts

/-- What is done in one queue leaves the others alone. -/
theorem Act.aside (hts : t ≠ s) (h : Act i t d deeds d') : Aside s d d' := by
  cases h with
  | @heed r e rest running events concerns => exact .after (x := .heeded ⟨r, d.hub, e⟩) hts _ rfl rfl
  | skip running events stray => exact .put hts _ _
  | clear idle => exact .put hts _ _
  | @start w rest idle events waiting => exact .after (x := .started w d.hub) hts _ rfl rfl
  | @cancel r running => exact .after (x := .cancelled r d.hub) hts _ rfl rfl
  | tell owing => exact ⟨rfl, rfl, endings_tell owing, seen_tell _ _ _ _ _, fun x hx _ => ⟨x, hx, rfl, rfl⟩⟩
  | enrol asked =>
      refine ⟨?_, update_of_ne hts.symm _ _, rfl, rfl, fun x hx _ => ⟨x, hx, rfl, rfl⟩⟩
      rw [enrol_queue, update_of_ne hts.symm]
  | turnAway asked busy settled =>
      refine ⟨update_of_ne hts.symm _ _, update_of_ne hts.symm _ _, ?_, seen_turnAway _ _ _ _,
        fun x hx _ => ⟨x, hx, rfl, rfl⟩⟩
      rw [endings_turnAway settled, if_neg hts, List.append_nil]
  | callOff waiting =>
      refine ⟨update_of_ne hts.symm _ _, rfl, ?_, rfl, fun x hx _ => ⟨x, hx, rfl, rfl⟩⟩
      rw [endings_callOff, if_neg hts, List.append_nil]
  | fire armed due own =>
      have hput := Aside.put (s := s) (t := t) hts d
      subst own
      exact ⟨(hput _).queue, rfl, rfl, rfl, fun y hy _ => ⟨y, (Timers.mem_remove.mp hy).1, rfl, rfl⟩⟩
  | deliver received subscribed heard => exact .put hts _ _

end Aside

end Desk

end GroundLink
