import GroundLink.Proofs.Course
import GroundLink.Proofs.SingleFile

/-! Events do not stray from one job to the next. A queue takes its events in the order in which they were
left for it, and all that are left when a job starts were taken before; so what a job acts on was left for
the queue after its start (`Desk.Fresh`). Expiries are those of timers that the job itself has taken, and a
message is not passed over while the job it is for is under way. -/

namespace GroundLink

open Function

namespace Deed

variable {s : Service} {x : Deed} {log past : List Deed} {n : Nat} {c : Cookie}

/-- Whether a job has taken the timer with the given cookie in one of its steps. -/
def Armed (s : Service) (log : List Deed) (n : Nat) (c : Cookie) : Prop :=
  ∃ x ∈ log, ∃ h p, x.actor? = some (n, h) ∧ x.progress? s = some p ∧ h.timers.issued ≤ c ∧
    ∃ y ∈ p.hub.timers.armed, y.cookie = c ∧ y.tag = ⟨s, n⟩

theorem Armed.mono (h : Armed s log n c) (deeds : List Deed) : Armed s (log ++ deeds) n c := by
  obtain ⟨x, hx, harmed⟩ := h
  exact ⟨x, List.mem_append_left _ hx, harmed⟩

/-- Whether a job has started, with a message, when all that had been left for its queue was taken, and what
was left since then is what was taken since then and some more. -/
def Since (s : Service) (log : List Deed) (n : Nat) (more : List Event) : Prop :=
  ∃ before w h since, log = before ++ .started w h :: since ∧ w.number = n ∧
    (∃ m, .sent ⟨s, n⟩ m ∈ (w.start s h).effects) ∧ postings before = taken before ∧
      postings since = taken since ++ more

theorem Since.concat {events more : List Event} (h : Since s log n events) (x : Deed)
    (hmore : events ++ x.posts?.toList = x.takes?.toList ++ more) : Since s (log ++ [x]) n more := by
  obtain ⟨before, w, hub, since, rfl, hw, hsent, hbefore, hsince⟩ := h
  refine ⟨before, w, hub, since ++ [x], by simp, hw, hsent, hbefore, ?_⟩
  rw [postings, taken, filterMap_concat, filterMap_concat, ← postings, ← taken, hsince,
    List.append_assoc, hmore, List.append_assoc]

/-- Whether an event is taken as it should be, after what was done before. -/
structure Apt (s : Service) (past : List Deed) (x : Deed) : Prop where
  /-- A job acts on an event that was left after the job started, when all those left before it had been
  taken; the job has not ended since, and no other ends. -/
  heeds : ∀ t, x = .heeded t →
    (∃ before w h since later, past = before ++ .started w h :: (since ++ .posted t.event :: later) ∧
      w.number = t.job.number ∧ (∃ m, .sent ⟨s, w.number⟩ m ∈ (w.start s h).effects) ∧
        postings (before ++ .started w h :: since) = taken past) ∧
      t.job.number ∉ concluded s past ∧ ∀ e, x.ends? s = some e → e.number = t.job.number
  /-- A job acts on the expiry of a timer that it has taken itself, and for which it waits. -/
  expires : ∀ t n c, x = .heeded t → t.event = .expiry n c →
    n = t.job.number ∧ t.job.cookie = some c ∧ Armed s past n c
  /-- A message is passed over when the job it is for has ended, or no command is under way. -/
  drops : ∀ job header m, x = .dropped (.message job header m) →
    (∀ n, job = some n → n ∈ concluded s past) ∧ (job = none → begun past = concluded s past)

theorem Apt.of_ne (hheeded : ∀ t, x ≠ .heeded t) (hdropped : ∀ e, x ≠ .dropped e) : Apt s past x :=
  ⟨fun t h => absurd h (hheeded t), fun t _ _ h => absurd h (hheeded t), fun _ _ _ h => absurd h (hdropped _)⟩

end Deed

namespace Desk

open Deed

variable {i : Input} {s t : Service} {d d' : Desk} {log deeds : List Deed}

/-- A message is left for no other job than the one under way. -/
theorem running_of_event? (hs : d.Sound) {x : Subscriber} {header : Header} {m : Message} {e : Event}
    (hx : x ∈ d.hub.handlers.matching m.kind) (he : x.event? s header m = some e) :
    (∀ n header m, e = .message (some n) header m → ∃ r, (d.queue s).running = some r ∧ r.number = n) ∧
      ∀ n c, e ≠ .expiry n c := by
  cases x with
  | commands =>
      rw [Subscriber.event?, Option.ite_none_right_eq_some] at he
      cases he.2
      exact ⟨fun _ _ _ h => (by cases h), fun _ _ h => (by cases h)⟩
  | job ticket system =>
      rw [Subscriber.event?, Option.ite_none_right_eq_some] at he
      obtain ⟨⟨rfl, _⟩, heq⟩ := he
      cases heq
      refine ⟨fun n _ _ h => ?_, fun _ _ h => (by cases h)⟩
      cases h
      obtain ⟨y, hy, haction⟩ := List.mem_map.mp hx
      rcases List.mem_cons.mp (hs.subscribed.mem_iff.mp (List.mem_filter.mp hy).1) with rfl | hy
      · cases haction
      · obtain ⟨t, _, hy⟩ := List.mem_flatMap.mp hy
        obtain ⟨r, hr, _, system', haction'⟩ := JobQueue.owner_of_mem_handlers hy
        rw [haction] at haction'
        cases haction'
        exact ⟨r, hr, rfl⟩

/-- How the events of a queue go with its log. -/
structure Fresh (s : Service) (d : Desk) (log : List Deed) : Prop where
  order : postings log = taken log ++ (d.queue s).events
  since : ∀ r, (d.queue s).running = some r → Since s log r.number (d.queue s).events
  /-- Messages for a job are left for it once it was started. -/
  known : ∀ n header m, .message (some n) header m ∈ (d.queue s).events → n ∈ begun log
  armed : ∀ x ∈ d.hub.timers.armed, x.tag.service = s → Armed s log x.tag.number x.cookie
  expiries : ∀ n c, .expiry n c ∈ (d.queue s).events → Armed s log n c
  apt : Each (Apt s) log

namespace Fresh

/-- One more thing is done, which changes the events of the queue and not who is under way. -/
theorem concat (hf : Fresh s d log) {x : Deed}
    (hmore : (d.queue s).events ++ x.posts?.toList = x.takes?.toList ++ (d'.queue s).events)
    (hrunning : ∀ r', (d'.queue s).running = some r' →
      ∃ r, (d.queue s).running = some r ∧ r'.number = r.number)
    (hposted : ∀ e, x = .posted e → (∀ n header m, e = .message (some n) header m → n ∈ begun log) ∧
      ∀ n c, e = .expiry n c → Armed s log n c)
    (harmed : ∀ y ∈ d'.hub.timers.armed, y.tag.service = s → Armed s (log ++ [x]) y.tag.number y.cookie)
    (hapt : Apt s log x) : Fresh s d' (log ++ [x]) := by
  have hevent : ∀ e ∈ (d'.queue s).events, e ∈ (d.queue s).events ∨ x = .posted e := by
    intro e he
    have hmem : e ∈ (d.queue s).events ++ x.posts?.toList := hmore ▸ List.mem_append_right _ he
    refine (List.mem_append.mp hmem).imp id fun hnew => ?_
    cases x <;> simp [posts?] at hnew
    rw [hnew]
  have hbegun : begun log ⊆ begun (log ++ [x]) := begun_subset log x []
  refine ⟨?_, fun r' hr' => ?_, fun n header m he => ?_, harmed, fun n c he => ?_, hf.apt.concat hapt⟩
  · rw [postings, taken, filterMap_concat, filterMap_concat, ← postings, ← taken, hf.order,
      List.append_assoc, hmore, List.append_assoc]
  · obtain ⟨r, hr, hn⟩ := hrunning r' hr'
    exact hn ▸ (hf.since r hr).concat x hmore
  · rcases hevent _ he with hold | hnew
    · exact hbegun (hf.known n header m hold)
    · exact hbegun ((hposted _ hnew).1 n header m rfl)
  · rcases hevent _ he with hold | hnew
    · exact (hf.expiries n c hold).mono _
    · exact ((hposted _ hnew).2 n c rfl).mono _

/-- The timers that are armed after a step of a job are those of before or were taken in it. -/
theorem armed_step (hf : Fresh s d log) {x : Deed} {n : Nat} {p : Progress} (ha : x.actor? = some (n, d.hub))
    (hp : x.progress? s = some p) :
    ∀ y ∈ p.hub.timers.armed, y.tag.service = s → Armed s (log ++ [x]) y.tag.number y.cookie := by
  intro y hy hs
  rcases (own_step ha hp).2.2.timers y hy with ⟨z, hz, hcookie, htag⟩ | ⟨htag, hissued⟩
  · rw [← hcookie, ← htag]
    exact (hf.armed z hz (htag ▸ hs)).mono _
  · refine ⟨x, List.mem_append_right _ (List.mem_singleton_self x), d.hub, p, ?_, hp, hissued, y, hy, rfl, ?_⟩
    · rw [htag]
      exact ha
    · rw [htag]

/-- The job under way acts on the first of the events that are left. -/
theorem apt_heeded (hf : Fresh s d log) (hfiled : Filed s d log) {r : Running} {e : Event} {rest : List Event}
    (hr : (d.queue s).running = some r) (he : (d.queue s).events = e :: rest) (hc : e.Concerns r) :
    Apt s log (.heeded ⟨r, d.hub, e⟩) := by
  refine ⟨fun t ht => ?_, fun t n c ht hexpiry => ?_, fun _ _ _ h => (by cases h)⟩
  · cases ht
    refine ⟨?_, hfiled.not_concluded_of_running hr, fun x hx => ?_⟩
    · obtain ⟨before, w, h, since, rfl, hw, hsent, hbefore, hsince⟩ := hf.since r hr
      rw [he] at hsince
      obtain ⟨early, others, rfl, hearly, hothers⟩ := List.filterMap_eq_append_iff.mp hsince
      obtain ⟨quiet, x, later, rfl, hquiet, hx, _⟩ := List.filterMap_eq_cons_iff.mp hothers
      obtain rfl : x = .posted e := by cases x <;> simp_all [posts?]
      refine ⟨before, w, h, early ++ quiet, later, by simp, hw, hw ▸ hsent, ?_⟩
      have hnone : quiet.filterMap posts? = [] := List.filterMap_eq_nil_iff.mpr hquiet
      have hposted : postings (before ++ .started w h :: (early ++ quiet)) =
          postings before ++ early.filterMap posts? := by
        rw [postings, List.filterMap_append, List.filterMap_cons_none rfl, List.filterMap_append, hnone,
          List.append_nil, ← postings]
      have htaken : ∀ since, taken (before ++ .started w h :: since) = taken before ++ taken since := by
        intro since
        rw [taken, List.filterMap_append, List.filterMap_cons_none rfl, ← taken, ← taken]
      rw [hposted, hbefore, hearly, htaken]
    · have hp : (Deed.heeded ⟨r, d.hub, e⟩).progress? s = some (r.take s d.hub e) := rfl
      rw [ends?_of_progress? hp] at hx
      exact (own_step (x := .heeded ⟨r, d.hub, e⟩) rfl hp).2.1 x hx
  · cases ht
    cases hexpiry
    refine ⟨hc.1, hc.2, hf.expiries n c ?_⟩
    rw [he]
    exact List.mem_cons_self

theorem apt_dropped (hf : Fresh s d log) (hfiled : Filed s d log) {e : Event} (he : e ∈ (d.queue s).events)
    (hstray : ∀ r, (d.queue s).running = some r → ¬e.Concerns r) : Apt s log (.dropped e) := by
  refine ⟨fun _ h => (by cases h), fun _ _ _ h => (by cases h), fun job header m h => ?_⟩
  cases h
  cases hr : (d.queue s).running with
  | none =>
      have hunder : begun log = concluded s log := by simpa [hr] using hfiled.under
      refine ⟨fun n hn => ?_, fun _ => hunder⟩
      rw [← hunder]
      exact hf.known n header m (hn ▸ he)
  | some r =>
      have hunder : begun log = concluded s log ++ [r.number] := by simpa [hr] using hfiled.under
      refine ⟨fun n hn => ?_, fun hnone => absurd (.inl hnone) (hstray r hr)⟩
      subst hn
      have hbegun := hf.known n header m he
      rw [hunder] at hbegun
      refine (List.mem_append.mp hbegun).resolve_right fun hsame => hstray r hr (.inr ?_)
      rw [List.mem_singleton.mp hsame]

theorem drop (hf : Fresh s d log) (hfiled : Filed s d log) {e : Event} {rest : List Event}
    (he : (d.queue s).events = e :: rest) (hstray : ∀ r, (d.queue s).running = some r → ¬e.Concerns r) :
    Fresh s (d.put s ((d.queue s).withEvents rest)) (log ++ [.dropped e]) := by
  have hqueue : (d.put s ((d.queue s).withEvents rest)).queue s = (d.queue s).withEvents rest :=
    update_self _ _ _
  have hmem : e ∈ (d.queue s).events := he ▸ List.mem_cons_self
  refine hf.concat ?_ (fun r hr => ?_) (fun _ h => (by cases h)) (fun y hy hs => (hf.armed y hy hs).mono _)
    (hf.apt_dropped hfiled hmem hstray)
  · rw [hqueue, he]
    simp [posts?, takes?]
  · rw [hqueue] at hr
    exact ⟨r, hr, rfl⟩

/-- The events of an idle queue are dropped one after the other. -/
theorem clear (events : List Event) :
    ∀ (d : Desk) (log : List Deed), Fresh s d log → Filed s d log → (d.queue s).running = none →
      (d.queue s).events = events →
        Fresh s (d.put s ((d.queue s).withEvents [])) (log ++ events.map .dropped) := by
  induction events with
  | nil =>
      intro d log hf _ _ he
      rwa [← he, JobQueue.withEvents_self, put_self, he, List.map_nil, List.append_nil]
  | cons e rest ih =>
      intro d log hf hfiled hr he
      have hqueue : (d.put s ((d.queue s).withEvents rest)).queue s = (d.queue s).withEvents rest :=
        update_self _ _ _
      have hone := hf.drop hfiled he fun r hrunning => by rw [hr] at hrunning; cases hrunning
      have hkeep : Filed s (d.put s ((d.queue s).withEvents rest)) (log ++ [.dropped e]) := by
        refine hfiled.keep (fun x hx => .inr ⟨e, List.mem_singleton.mp hx⟩) ?_ ?_ ?_ rfl rfl rfl
        all_goals rw [hqueue]; rfl
      have hrest := ih _ _ hone hkeep (by rw [hqueue]; exact hr) (by rw [hqueue]; rfl)
      have hput : (d.put s ((d.queue s).withEvents rest)).put s
          (((d.put s ((d.queue s).withEvents rest)).queue s).withEvents []) =
            d.put s ((d.queue s).withEvents []) := by
        rw [hqueue]
        simp [put]
      rw [hput, List.append_assoc] at hrest
      exact hrest

theorem heed (hf : Fresh s d log) (hfiled : Filed s d log) {r : Running} {e : Event} {rest : List Event}
    (hr : (d.queue s).running = some r) (he : (d.queue s).events = e :: rest) (hc : e.Concerns r) :
    Fresh s (d.after s ((d.queue s).withEvents rest) (r.take s d.hub e))
      (log ++ [.heeded ⟨r, d.hub, e⟩]) := by
  have hqueue : (d.after s ((d.queue s).withEvents rest) (r.take s d.hub e)).queue s =
      ((d.queue s).withEvents rest).withRunning (r.take s d.hub e).standing.running? := update_self _ _ _
  refine hf.concat ?_ (fun r' hr' => ⟨r, hr, ?_⟩) (fun _ h => (by cases h))
    (hf.armed_step (x := .heeded ⟨r, d.hub, e⟩) rfl rfl) (hf.apt_heeded hfiled hr he hc)
  · rw [hqueue, he]
    simp [posts?, takes?]
  · rw [hqueue] at hr'
    exact congrArg Ticket.number (Running.take_ticket e hr')

theorem cancel (hf : Fresh s d log) {r : Running} (hr : (d.queue s).running = some r) :
    Fresh s (d.after s (d.queue s) (r.cancel s d.hub)) (log ++ [.cancelled r d.hub]) := by
  have hqueue : (d.after s (d.queue s) (r.cancel s d.hub)).queue s =
      (d.queue s).withRunning (r.cancel s d.hub).standing.running? := update_self _ _ _
  refine hf.concat ?_ (fun r' hr' => ⟨r, hr, ?_⟩) (fun _ h => (by cases h))
    (hf.armed_step (x := .cancelled r d.hub) rfl rfl)
      (.of_ne (fun _ h => (by cases h)) fun _ h => (by cases h))
  · rw [hqueue]
    simp [posts?, takes?]
  · rw [hqueue] at hr'
    exact ((r.follow_follows s d.hub _).running hr').1

/-- A job that starts is sent off with a message, and no event is left. -/
theorem start (hf : Fresh s d log) {w : Waiting} {rest : List Waiting} (he : (d.queue s).events = []) :
    Fresh s (d.after s ((d.queue s).withWaiting rest) (w.start s d.hub)) (log ++ [.started w d.hub]) := by
  have hqueue : (d.after s ((d.queue s).withWaiting rest) (w.start s d.hub)).queue s =
      ((d.queue s).withWaiting rest).withRunning (w.start s d.hub).standing.running? := update_self _ _ _
  have hevents : ((d.after s ((d.queue s).withWaiting rest) (w.start s d.hub)).queue s).events = [] := by
    rw [hqueue]
    exact he
  have horder : postings log = taken log := by
    rw [hf.order, he, List.append_nil]
  refine ⟨?_, fun r hr => ?_, fun n header m hm => ?_, hf.armed_step (x := .started w d.hub) rfl rfl,
    fun n c hm => ?_, hf.apt.concat (.of_ne (fun _ h => (by cases h)) fun _ h => (by cases h))⟩
  · rw [hevents, postings, taken, filterMap_concat, filterMap_concat, ← postings, ← taken, horder]
    simp [posts?, takes?]
  · have hf' :=
      (w.opening (d.hub.setting s)).follow_follows s (w.subscribe s d.hub) (w.task.start (d.hub.setting s))
    rw [hqueue] at hr
    have hnumber : r.number = w.number := (hf'.running hr).1
    have hrunning : (w.start s d.hub).standing = .running r := by
      cases hs : (w.start s d.hub).standing with
      | running r' =>
          simp only [JobQueue.withRunning_running, hs, Standing.running?, Option.some.injEq] at hr
          rw [hr]
      | ended x => simp [hs, Standing.running?] at hr
    refine ⟨log, w, d.hub, [], rfl, hnumber.symm, ?_, horder, ?_⟩
    · rw [hnumber]
      exact hf'.sent (Task.start_opens _ _) hrunning
    · rw [hevents]
      rfl
  · rw [hevents] at hm
    cases hm
  · rw [hevents] at hm
    cases hm

/-- An event is left for the queue. -/
theorem post (hf : Fresh s d log) {e : Event} (hqueue : d'.queue s = (d.queue s).post e)
    (htimers : ∀ y ∈ d'.hub.timers.armed, y ∈ d.hub.timers.armed)
    (hknown : ∀ n header m, e = .message (some n) header m → n ∈ begun log)
    (hexpiry : ∀ n c, e = .expiry n c → Armed s log n c) : Fresh s d' (log ++ [.posted e]) := by
  refine hf.concat ?_ (fun r hr => ⟨r, ?_, rfl⟩) (fun e' he' => ?_)
    (fun y hy hs => (hf.armed y (htimers y hy) hs).mono _)
      (.of_ne (fun _ h => (by cases h)) fun _ h => (by cases h))
  · rw [hqueue]
    rfl
  · rw [hqueue] at hr
    exact hr
  · cases he'
    exact ⟨hknown, hexpiry⟩

/-- Something is done to which the queue has no events, with its job under way where it was. -/
theorem keep (hf : Fresh s d log) (hrunning : (d'.queue s).running = (d.queue s).running)
    (hevents : (d'.queue s).events = (d.queue s).events)
    (htimers : ∀ y ∈ d'.hub.timers.armed, y.tag.service = s →
      ∃ z ∈ d.hub.timers.armed, z.cookie = y.cookie ∧ z.tag = y.tag) :
    Fresh s d' log := by
  refine ⟨hevents ▸ hf.order, ?_, ?_, fun y hy hs => ?_, ?_, hf.apt⟩
  · rw [hrunning, hevents]
    exact hf.since
  · rw [hevents]
    exact hf.known
  · obtain ⟨z, hz, hcookie, htag⟩ := htimers y hy hs
    rw [← hcookie, ← htag]
    exact hf.armed z hz (htag ▸ hs)
  · rw [hevents]
    exact hf.expiries

theorem act (hf : Fresh s d log) (hfiled : Filed s d log) (hs : d.Sound) (hact : Act i s d deeds d') :
    Fresh s d' (log ++ deeds) := by
  cases hact with
  | heed running events concerns => exact hf.heed hfiled running events concerns
  | skip running events stray =>
      refine hf.drop hfiled events fun r hr => ?_
      rw [running] at hr
      cases hr
      exact stray
  | clear idle => exact clear _ d log hf hfiled idle rfl
  | start idle events waiting => exact hf.start events
  | cancel running => exact hf.cancel running
  | tell owing =>
      rw [List.append_nil]
      exact hf.keep rfl rfl fun y hy _ => ⟨y, hy, rfl, rfl⟩
  | enrol asked =>
      rw [List.append_nil]
      refine hf.keep ?_ ?_ fun y hy _ => ⟨y, hy, rfl, rfl⟩
      all_goals rw [enrol_queue, update_self]; rfl
  | @turnAway task asked busy settled =>
      have hqueue : (d.turnAway s task).queue s = (d.queue s).counted := update_self _ _ _
      refine hf.concat ?_ (fun r hr => ⟨r, ?_, rfl⟩) (fun _ h => (by cases h))
        (fun y hy hs => (hf.armed y hy hs).mono _) (.of_ne (fun _ h => (by cases h)) fun _ h => (by cases h))
      · rw [hqueue]
        simp [posts?, takes?, JobQueue.counted]
      · rw [hqueue] at hr
        exact hr
  | @callOff w before after waiting =>
      have hqueue : (d.callOff s w (before ++ after)).queue s = (d.queue s).withWaiting (before ++ after) :=
        update_self _ _ _
      refine hf.concat ?_ (fun r hr => ⟨r, ?_, rfl⟩) (fun _ h => (by cases h))
        (fun y hy hs => (hf.armed y hy hs).mono _) (.of_ne (fun _ h => (by cases h)) fun _ h => (by cases h))
      · rw [hqueue]
        simp [posts?, takes?]
      · rw [hqueue] at hr
        exact hr
  | @fire x armed due own =>
      subst own
      refine hf.post (update_self _ _ _)
        (fun y hy => (Timers.mem_remove.mp hy).1) (fun _ _ _ h => (by cases h))
        fun n c h => ?_
      cases h
      exact hf.armed x armed rfl
  | deliver received subscribed heard =>
      have hrunning := running_of_event? hs subscribed heard
      refine hf.post (update_self _ _ _)
        (fun _ => id) (fun n header m h => ?_) fun n c h => absurd h (hrunning.2 n c)
      obtain ⟨r, hr, rfl⟩ := hrunning.1 n header m h
      exact hfiled.begun_of_running hr

theorem other (hf : Fresh s d log) (hts : t ≠ s) (hact : Act i t d deeds d') : Fresh s d' log := by
  have haside := hact.aside hts
  exact hf.keep (by rw [haside.queue]) (by rw [haside.queue]) haside.timers

end Fresh

/-- Submissions are only ever added to those of before. -/
theorem Act.asked {t : Service} (h : Act i t d deeds d') (s : Service) : d.asked s <+: d'.asked s := by
  by_cases ht : t = s
  · subst ht
    cases h with
    | @enrol task asked =>
        have hnew : (d.enrol t task).asked t = d.asked t ++ [task] := update_self _ _ _
        exact hnew ▸ List.prefix_append _ _
    | @turnAway task asked busy settled =>
        have hnew : (d.turnAway t task).asked t = d.asked t ++ [task] := update_self _ _ _
        exact hnew ▸ List.prefix_append _ _
    | _ => exact List.prefix_rfl
  · exact (h.aside ht).asked ▸ List.prefix_rfl

/-- Whether the jobs that act on events are those that were submitted. -/
def Known (s : Service) (d : Desk) (log : List Deed) : Prop :=
  ∀ x, .heeded x ∈ log → (d.asked s)[x.job.number]? = some x.job.activity.task

theorem Known.of_asked (h : Known s d log) (hasked : d.asked s <+: d'.asked s) : Known s d' log := by
  intro x hx
  obtain ⟨more, hmore⟩ := hasked
  have hold := h x hx
  rw [← hmore, List.getElem?_append_left (List.getElem?_eq_some_iff.mp hold).1]
  exact hold

theorem Known.act (h : Known s d log) (hs : d.Sound) (hact : Act i s d deeds d') :
    Known s d' (log ++ deeds) := by
  intro x hx
  rcases List.mem_append.mp hx with hold | hnew
  · exact h.of_asked (hact.asked s) x hold
  · cases hact with
    | heed running events concerns =>
        cases List.mem_singleton.mp hnew
        exact hs.lined.asked (JobQueue.slot_mem_line running)
    | _ => simp at hnew

end Desk

theorem Subscriber.event?_job (s : Service) (header : Header) (m : Message) (t : Ticket) (system : UInt8) :
    (Subscriber.job t system).event? s header m =
      if t.service = s ∧ (system = 0 ∨ header.sender.system = system) then
        some (.message (some t.number) header m)
      else none := rfl

/-- What is left for a job under way when the engine gets a message, if the job listens to it. -/
def Running.hears (header : Header) (m : Message) (r : Running) : List Event :=
  let task := r.activity.task
  if m.kind ∈ task.kinds ∧ (task.peer.system = 0 ∨ header.sender.system = task.peer.system) then
    [.message (some r.number) header m]
  else []

/-- What is left for a queue when the engine gets a message: an answer to a command, or
what its job listens to. -/
def JobQueue.hears (q : JobQueue) (header : Header) (m : Message) : Service → List Event
  | .commands => if m.kind = .commandAck then [.message none header m] else []
  | .mission _ => q.running.toList.flatMap (Running.hears header m)

theorem JobQueue.length_hears_le (q : JobQueue) (header : Header) (m : Message) (s : Service) :
    (q.hears header m s).length ≤ 1 := by
  obtain _ | side := s
  · rw [hears]
    split <;> simp
  · rw [hears]
    cases q.running with
    | none => simp
    | some r =>
        simp only [Option.toList_some, List.flatMap_singleton, Running.hears]
        split <;> simp

theorem eq_of_perm_of_length_le_one {α : Type} {a b : List α} (h : a.Perm b) (hb : b.length ≤ 1) : a = b := by
  rcases Nat.le_one_iff_eq_zero_or_eq_one.mp hb with hzero | hone
  · rw [List.length_eq_zero_iff.mp hzero] at h ⊢
    exact List.perm_nil.mp h
  · obtain ⟨x, rfl⟩ := List.length_eq_one_iff.mp hone
    exact List.perm_singleton.mp h

/-- A job listens to a kind of message once. -/
theorem Task.nodup_kinds (t : Task) : t.kinds.Nodup := by
  cases t with
  | command a => exact List.nodup_nil
  | transfer t =>
      cases t <;>
        simp [kinds, Transfer.kinds, Upload.kinds, Download.kinds, Receive.kinds, Clear.kinds,
          SetCurrent.kinds]

theorem filterMap_ite_mem {α β : Type} [DecidableEq α] {l : List α} (hl : l.Nodup) (a : α) (b : Option β) :
    (l.filterMap fun x => if x = a then b else none) = if a ∈ l then b.toList else [] := by
  induction l with
  | nil => simp
  | cons x rest ih =>
      obtain ⟨hx, hrest⟩ := List.nodup_cons.mp hl
      by_cases hxa : x = a
      · subst hxa
        have hnone : (rest.filterMap fun y => if y = x then b else none) = [] := by
          rw [ih hrest, if_neg hx]
        cases b <;> simp [hnone]
      · have hax : a ≠ x := fun h => hxa h.symm
        simp [hxa, hax, ih hrest]

/-- What a handler leaves for a queue when the engine gets a message. -/
def Handler.event? (s : Service) (header : Header) (m : Message) (x : Handler Kind Subscriber) :
    Option Event :=
  if x.kind = m.kind then x.action.event? s header m else none

theorem Handler.event?_commandHandler (s : Service) (header : Header) (m : Message) :
    commandHandler.event? s header m =
      if m.kind = .commandAck ∧ .commands = s then some (.message none header m) else none := by
  simp [event?, commandHandler, Subscriber.event?, eq_comm (a := Kind.commandAck), ite_and]

/-- The handlers of a queue leave something for that queue only, and once. -/
theorem JobQueue.filterMap_handlers (q : JobQueue) (s t : Service) (header : Header) (m : Message) :
    (q.handlers t).filterMap (Handler.event? s header m) =
      if t = s then q.running.toList.flatMap (Running.hears header m) else [] := by
  cases hr : q.running with
  | none => by_cases ht : t = s <;> simp_all [handlers]
  | some r =>
      rw [handlers_of_running hr, Waiting.handlers, List.filterMap_map]
      refine (filterMap_ite_mem r.slot.task.nodup_kinds m.kind
        ((Subscriber.job ⟨t, r.slot.number⟩ r.slot.task.peer.system).event? s header m)).trans ?_
      rw [Subscriber.event?_job]
      by_cases ht : t = s
      · subst ht
        rw [if_pos rfl]
        by_cases hk : m.kind ∈ r.activity.task.kinds <;>
          by_cases hsystem : r.activity.task.peer.system = 0 ∨
            header.sender.system = r.activity.task.peer.system <;>
          simp [Running.hears, Running.slot, hk, hsystem]
      · simp [ht]

namespace Desk

variable {s : Service} {d : Desk}

theorem queue_deliver (d : Desk) (s : Service) (header : Header) (m : Message) (x : Subscriber) :
    (d.deliver header m x).queue s =
      (d.queue s).withEvents ((d.queue s).events ++ (x.event? s header m).toList) := by
  have hpost : ∀ t e, (d.post t e).queue s =
      (d.queue s).withEvents ((d.queue s).events ++ if t = s then [e] else []) := by
    intro t e
    by_cases ht : t = s
    · subst ht
      rw [queue_post_self, if_pos rfl]
      rfl
    · rw [if_neg ht, List.append_nil]
      exact update_of_ne (Ne.symm ht) _ _
  cases x with
  | commands =>
      rw [deliver, hpost, Subscriber.event?]
      by_cases hs : Service.commands = s <;> simp [hs]
  | job ticket system =>
      rw [deliver, Subscriber.event?]
      by_cases hsystem : system = 0 ∨ header.sender.system = system
      · rw [if_pos hsystem, hpost]
        by_cases hs : ticket.service = s <;> simp [hs, hsystem]
      · rw [if_neg hsystem, if_neg fun h => hsystem h.2, Option.toList_none, List.append_nil]
        rfl

theorem queue_deliverAll (s : Service) (header : Header) (m : Message) (subscribers : List Subscriber) :
    ∀ d : Desk, (subscribers.foldl (fun d x => d.deliver header m x) d).queue s =
      (d.queue s).withEvents ((d.queue s).events ++
        subscribers.filterMap (Subscriber.event? s header m)) := by
  induction subscribers with
  | nil => exact fun d => by rw [List.filterMap_nil, List.append_nil]; rfl
  | cons x rest ih =>
      intro d
      rw [List.foldl_cons, ih, queue_deliver]
      cases hx : x.event? s header m <;> simp [hx, JobQueue.withEvents]

end Desk

namespace Engine

open Deed

variable (config : Config) (link : Link) (clock : Instant)

theorem fresh_run (s : Service) (inputs : List Input) :
    ((idle config link clock).deskAfter inputs).Fresh s ((idle config link clock).log s inputs) := by
  have hqueue : ((idle config link clock).desk [] fun _ => []).queue s = .empty := by
    obtain _ | ⟨_ | _⟩ := s <;> rfl
  have hidle : ((idle config link clock).desk [] fun _ => []).Fresh s [] := by
    refine ⟨?_, fun r hr => ?_, fun n header m he => ?_,
      fun x hx => absurd hx List.not_mem_nil, fun n c he => ?_, each_nil⟩
    · rw [hqueue]
      rfl
    all_goals
      first | rw [hqueue] at hr; cases hr | rw [hqueue] at he; cases he
  have hrun := keeps_log (s := s) (P := fun d past => d.Filed s past ∧ d.Fresh s past)
    (fun i _ _ h => ⟨h.1.of_under i, h.2.order, h.2.since, h.2.known, h.2.armed, h.2.expiries, h.2.apt⟩)
    (fun _ _ _ _ _ hs h hact => ⟨h.1.act hs hact, h.2.act h.1 hs hact⟩)
    (fun _ _ _ _ _ _ hts _ h hact => ⟨h.1.other hts hact, h.2.other hts hact⟩) config link clock inputs
    ⟨filed_idle config link clock s, hidle⟩
  exact hrun.2

theorem known_run (s : Service) (inputs : List Input) :
    ((idle config link clock).deskAfter inputs).Known s ((idle config link clock).log s inputs) :=
  keeps_log (P := fun d past => d.Known s past) (fun _ _ _ h => h) (fun _ _ _ _ _ hs h hact => h.act hs hact)
    (fun _ _ _ _ _ _ _ _ h hact => h.of_asked (hact.asked s)) config link clock inputs
    fun _ hx => absurd hx List.not_mem_nil

/-- A message that comes in is left for a queue once, if the queue or its job under way listens to it. -/
theorem queue_receive (inputs : List Input) (s : Service) (header : Header) (m : Message) :
    let e := ((idle config link clock).run inputs).engine
    (e.receive header m).queue s =
      (e.queue s).withEvents ((e.queue s).events ++ (e.queue s).hears header m s) := by
  intro e
  have hsound : (e.desk _ _).Sound := sound_run config link clock inputs
  have hqueue : (e.receive header m).queue s =
      (e.queue s).withEvents ((e.queue s).events ++
        e.hub.handlers.entries.filterMap (Handler.event? s header m)) := by
    have hall := Desk.queue_deliverAll s header m (e.hub.handlers.matching m.kind) (e.desk [] fun _ => [])
    rw [← desk_receive, Handlers.matching, List.filterMap_map, List.filterMap_filter] at hall
    simp only [decide_eq_true_eq] at hall
    exact hall
  have hperm : (e.hub.handlers.entries.filterMap (Handler.event? s header m)).Perm
      ((commandHandler :: Service.all.flatMap fun t => (e.queue t).handlers t).filterMap
        (Handler.event? s header m)) :=
    hsound.subscribed.filterMap _
  have hall : (Service.all.flatMap fun t => (e.queue t).handlers t).filterMap (Handler.event? s header m) =
      (e.queue s).running.toList.flatMap (Running.hears header m) := by
    rw [List.filterMap_flatMap]
    simp only [JobQueue.filterMap_handlers]
    obtain _ | ⟨_ | _⟩ := s <;> simp [Service.all]
  have hhears : (commandHandler :: Service.all.flatMap fun t => (e.queue t).handlers t).filterMap
      (Handler.event? s header m) = (e.queue s).hears header m s := by
    obtain _ | side := s
    · -- jobs of the command queue listen to nothing themselves
      have hnone : (e.queue .commands).running.toList.flatMap (Running.hears header m) = [] := by
        refine List.flatMap_eq_nil_iff.mpr fun r hr => ?_
        have hasked := hsound.lined.asked (s := .commands) (JobQueue.slot_mem_line (Option.mem_toList.mp hr))
        have hkinds : r.activity.task.kinds = [] := kinds_of_command hasked
        simp [Running.hears, hkinds]
      rw [List.filterMap_cons, hall, hnone, Handler.event?_commandHandler, JobQueue.hears]
      by_cases hk : m.kind = .commandAck <;> simp [hk]
    · exact (List.filterMap_cons_none (by simp [Handler.event?_commandHandler])).trans hall
  rw [hhears] at hperm
  rw [hqueue, eq_of_perm_of_length_le_one hperm (JobQueue.length_hears_le _ _ _ _)]

theorem deeds_receive (inputs : List Input) (s : Service) (header : Header) (m : Message) :
    let e := ((idle config link clock).run inputs).engine
    e.deeds s (.receive header m) = ((e.queue s).hears header m s).map .posted := by
  intro e
  rw [deeds, JobQueue.news, queue_receive]
  exact congrArg _ List.drop_left

/-- In every run a queue takes its events in the order in which they are left for it. What a job acts on was
left after the job started, an expiry is that of a timer of its own, and what is for the job under way is not
passed over. A message that comes in is left for a queue at most once, if the queue or its job under way
listens to it. -/
theorem run_isolates_events (inputs : List Input) (s : Service) :
    let e := idle config link clock
    let r := e.run inputs
    let log := e.log s inputs
    postings log = taken log ++ (r.engine.queue s).events ∧ Each (Apt s) log ∧
      ∀ header m, r.engine.deeds s (.receive header m) =
        ((r.engine.queue s).hears header m s).map .posted := by
  intro e r log
  have hfresh : (e.deskAfter inputs).Fresh s log := fresh_run config link clock s inputs
  exact ⟨hfresh.order, hfresh.apt, deeds_receive config link clock inputs s⟩

end Engine

end GroundLink
