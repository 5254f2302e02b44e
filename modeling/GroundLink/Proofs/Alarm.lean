import Mathlib.Data.List.Nodup
import GroundLink.Proofs.Desk
import GroundLink.Proofs.Timers

/-! The timers of jobs. The job under way of a queue always waits for something: its own timer is armed,
or it has expired and its queue has not heard of that yet (`Tended`). No other timers are armed. A step
of a job first takes its timer away (`Desk.Due.freed`) and then either ends the job or arms another; the
steps that do neither answer to a message, and leave the timer armed. -/

namespace GroundLink

open Function

/-- Timers and the jobs under way, each with its own timer. -/
structure Tended (t : Timers Ticket) (queue : Service → JobQueue) : Prop where
  distinct : (t.armed.map (·.cookie)).Nodup
  issued : ∀ x ∈ t.armed, x.cookie < t.issued
  /-- An armed timer is that of a job under way. -/
  owned : ∀ x ∈ t.armed, ∃ r, (queue x.tag.service).running = some r ∧ r.number = x.tag.number ∧
    r.cookie = some x.cookie
  /-- The timer of a job under way is armed, or its expiry is among the events of its queue. -/
  awaited : ∀ s r, (queue s).running = some r → ∃ c, r.cookie = some c ∧
    ((∃ x ∈ t.armed, x.cookie = c ∧ x.tag = r.ticket s) ∨ .expiry r.number c ∈ (queue s).events)
  fired : ∀ s n c, .expiry n c ∈ (queue s).events → c < t.issued ∧ ∀ x ∈ t.armed, x.cookie ≠ c

namespace Tended

variable {t : Timers Ticket} {queue : Service → JobQueue} {s : Service} {q : JobQueue} {r : Running}

theorem eq_of_cookie (ht : Tended t queue) {x y : Timer Ticket} (hx : x ∈ t.armed) (hy : y ∈ t.armed)
    (hc : x.cookie = y.cookie) : x = y :=
  List.inj_on_of_nodup_map ht.distinct hx hy hc

theorem expiry_update (hevents : ∀ n c, .expiry n c ∈ q.events → .expiry n c ∈ (queue s).events) :
    ∀ s' n c, .expiry n c ∈ (update queue s q s').events → .expiry n c ∈ (queue s').events :=
  (forall_update_iff _ fun s' (q : JobQueue) => ∀ n c, .expiry n c ∈ q.events →
    .expiry n c ∈ (queue s').events).mpr
    ⟨hevents, fun _ _ _ _ => id⟩

/-- A queue changes, but its job under way and the expiries it is to hear of stay the same. -/
theorem exchange (ht : Tended t queue)
    (hrunning : q.running.map (fun r => (r.number, r.cookie)) =
      (queue s).running.map fun r => (r.number, r.cookie))
    (hevents : ∀ n c, .expiry n c ∈ q.events → .expiry n c ∈ (queue s).events)
    (hown : ∀ r c, (queue s).running = some r → r.cookie = some c → .expiry r.number c ∈ (queue s).events →
      .expiry r.number c ∈ q.events) : Tended t (update queue s q) := by
  refine ⟨ht.distinct, ht.issued, fun x hx => ?_, fun s' r hr => ?_, fun s' n c he => ?_⟩
  · obtain ⟨r, hr, hn, hc⟩ := ht.owned x hx
    by_cases hs : x.tag.service = s
    · rw [hs] at hr ⊢
      rw [hr, Option.map_some, Option.map_eq_some_iff] at hrunning
      obtain ⟨r', hr', hkey⟩ := hrunning
      obtain ⟨hn', hc'⟩ := Prod.mk.inj hkey
      exact ⟨r', by rw [update_self, hr'], hn'.trans hn, hc'.trans hc⟩
    · exact ⟨r, by rw [update_of_ne hs, hr], hn, hc⟩
  · by_cases hs : s' = s
    · subst hs
      rw [update_self] at hr ⊢
      rw [hr, Option.map_some, eq_comm, Option.map_eq_some_iff] at hrunning
      obtain ⟨r₀, hr₀, hkey⟩ := hrunning
      obtain ⟨hn, hc⟩ := Prod.mk.inj hkey
      obtain ⟨c, hc₀, harmed | hexpired⟩ := ht.awaited s' r₀ hr₀
      · refine ⟨c, hc ▸ hc₀, .inl ?_⟩
        rw [Running.ticket, ← hn]
        exact harmed
      · exact ⟨c, hc ▸ hc₀, .inr (hn ▸ hown r₀ c hr₀ hc₀ hexpired)⟩
    · rw [update_of_ne hs] at hr ⊢
      exact ht.awaited s' r hr
  · exact ht.fired s' n c (expiry_update hevents s' n c he)

theorem refresh (ht : Tended t queue) (now : Instant) (cookie : Cookie) :
    Tended (t.refresh now cookie) queue where
  distinct := by
    rw [Timers.cookies_refresh]
    exact ht.distinct
  issued x hx := by
    obtain ⟨y, hy, hc, _⟩ := Timers.mem_refresh hx
    rw [hc]
    exact ht.issued y hy
  owned x hx := by
    obtain ⟨y, hy, hc, htag, _⟩ := Timers.mem_refresh hx
    rw [hc, htag]
    exact ht.owned y hy
  awaited s r hr := by
    obtain ⟨c, hc, ⟨x, hx, hxc, htag⟩ | hexpired⟩ := ht.awaited s r hr
    · obtain ⟨y, hy, hyc, hytag⟩ := Timers.mem_refresh_of_mem now cookie hx
      exact ⟨c, hc, .inl ⟨y, hy, hyc.trans hxc, hytag.trans htag⟩⟩
    · exact ⟨c, hc, .inr hexpired⟩
  fired s n c he := by
    obtain ⟨hlt, hne⟩ := ht.fired s n c he
    refine ⟨hlt, fun x hx => ?_⟩
    obtain ⟨y, hy, hc, _⟩ := Timers.mem_refresh hx
    rw [hc]
    exact hne y hy

/-- A job leaves, and its timer with it. -/
theorem release (ht : Tended t queue) (hr : (queue s).running = some r) {c : Cookie} (hc : r.cookie = some c)
    (hq : q.running = none) (hevents : ∀ n c, .expiry n c ∈ q.events → .expiry n c ∈ (queue s).events) :
    Tended (t.remove c) (update queue s q) where
  distinct := ht.distinct.sublist (t.cookies_remove c)
  issued x hx := ht.issued x (Timers.mem_remove.mp hx).1
  owned x hx := by
    obtain ⟨harmed, hne⟩ := Timers.mem_remove.mp hx
    obtain ⟨r', hr', hn, hc'⟩ := ht.owned x harmed
    have hs : x.tag.service ≠ s := by
      intro hs
      rw [hs, hr, Option.some.injEq] at hr'
      rw [← hr', hc, Option.some.injEq] at hc'
      exact hne hc'.symm
    exact ⟨r', by rw [update_of_ne hs, hr'], hn, hc'⟩
  awaited s' r' hr' := by
    have hs : s' ≠ s := by
      rintro rfl
      rw [update_self, hq] at hr'
      cases hr'
    rw [update_of_ne hs] at hr' ⊢
    obtain ⟨c', hc', ⟨x, hx, hxc, htag⟩ | hexpired⟩ := ht.awaited s' r' hr'
    · refine ⟨c', hc', .inl ⟨x, Timers.mem_remove.mpr ⟨hx, ?_⟩, hxc, htag⟩⟩
      -- the timer of another job has another cookie, whether this job's is still armed or not
      intro hxc'
      obtain ⟨c₀, hc₀, ⟨y, hy, hyc, hytag⟩ | hexpired⟩ := ht.awaited s r hr
      · rw [hc, Option.some.injEq] at hc₀
        have hxy := ht.eq_of_cookie hx hy (by rw [hxc', hc₀, hyc])
        rw [hxy, hytag] at htag
        exact hs (congrArg Ticket.service htag).symm
      · rw [hc, Option.some.injEq] at hc₀
        exact (ht.fired s _ _ hexpired).2 x hx (hxc'.trans hc₀)
    · exact ⟨c', hc', .inr hexpired⟩
  fired s' n c' he := by
    obtain ⟨hlt, hne⟩ := ht.fired s' n c' (expiry_update hevents s' n c' he)
    exact ⟨hlt, fun x hx => hne x (Timers.mem_remove.mp hx).1⟩

theorem lapse (ht : Tended t queue) (hr : (queue s).running = some r) {c : Cookie} (hc : r.cookie = some c)
    (he : .expiry r.number c ∈ (queue s).events) (hq : q.running = none)
    (hevents : ∀ n c, .expiry n c ∈ q.events → .expiry n c ∈ (queue s).events) :
    Tended t (update queue s q) := by
  have hgone : t.remove c = t := by
    have hfilter : t.armed.filter (·.cookie ≠ c) = t.armed :=
      List.filter_eq_self.mpr fun x hx => decide_eq_true ((ht.fired s _ _ he).2 x hx)
    rw [Timers.remove, hfilter]
  exact hgone ▸ ht.release hr hc hq hevents

theorem arm (ht : Tended t queue) (hidle : (queue s).running = none) (now : Instant) (span : Span)
    (hq : q.running = some r) (hc : r.cookie = some t.fresh)
    (hevents : ∀ n c, .expiry n c ∈ q.events → .expiry n c ∈ (queue s).events) :
    Tended (t.add now span (r.ticket s)) (update queue s q) where
  distinct := by
    rw [Timers.add_armed, List.map_append, List.nodup_append]
    refine ⟨ht.distinct, List.nodup_singleton _, fun a ha b hb => ?_⟩
    obtain ⟨x, hx, rfl⟩ := List.mem_map.mp ha
    rw [List.map_singleton, List.mem_singleton] at hb
    rw [hb]
    exact Nat.ne_of_lt (ht.issued x hx)
  issued x hx := by
    rcases List.mem_append.mp hx with hold | hnew
    · exact Nat.lt_succ_of_lt (ht.issued x hold)
    · rw [List.mem_singleton.mp hnew]
      exact Nat.lt_succ_self _
  owned x hx := by
    rcases List.mem_append.mp hx with hold | hnew
    · obtain ⟨r', hr', hn, hc'⟩ := ht.owned x hold
      have hs : x.tag.service ≠ s := by
        intro hs
        rw [hs, hidle] at hr'
        cases hr'
      exact ⟨r', by rw [update_of_ne hs, hr'], hn, hc'⟩
    · rw [List.mem_singleton.mp hnew]
      exact ⟨r, by rw [Running.ticket, update_self, hq], rfl, hc⟩
  awaited s' r' hr' := by
    by_cases hs : s' = s
    · subst hs
      rw [update_self, hq, Option.some.injEq] at hr'
      subst hr'
      exact ⟨t.fresh, hc, .inl ⟨_, List.mem_append_right _ (List.mem_singleton_self _), rfl, rfl⟩⟩
    · rw [update_of_ne hs] at hr' ⊢
      obtain ⟨c', hc', ⟨x, hx, hxc, htag⟩ | hexpired⟩ := ht.awaited s' r' hr'
      · exact ⟨c', hc', .inl ⟨x, List.mem_append_left _ hx, hxc, htag⟩⟩
      · exact ⟨c', hc', .inr hexpired⟩
  fired s' n c he := by
    obtain ⟨hlt, hne⟩ := ht.fired s' n c (expiry_update hevents s' n c he)
    refine ⟨Nat.lt_succ_of_lt hlt, fun x hx => ?_⟩
    rcases List.mem_append.mp hx with hx | hx
    · exact hne x hx
    · rw [List.mem_singleton.mp hx]
      exact Nat.ne_of_gt hlt

theorem fire (ht : Tended t queue) {x : Timer Ticket} (hx : x ∈ t.armed) :
    Tended (t.remove x.cookie)
      (update queue x.tag.service ((queue x.tag.service).post (.expiry x.tag.number x.cookie))) := by
  have hrunning : ∀ s', (update queue x.tag.service
      ((queue x.tag.service).post (.expiry x.tag.number x.cookie)) s').running = (queue s').running :=
    (forall_update_iff _ fun s' (q : JobQueue) => q.running = (queue s').running).mpr ⟨rfl, fun _ _ => rfl⟩
  refine ⟨ht.distinct.sublist (t.cookies_remove _), fun y hy => ht.issued y (Timers.mem_remove.mp hy).1,
    fun y hy => ?_, fun s' r hr => ?_, fun s' n c he => ?_⟩
  · rw [hrunning]
    exact ht.owned y (Timers.mem_remove.mp hy).1
  · rw [hrunning] at hr
    obtain ⟨c, hc, ⟨y, hy, hyc, htag⟩ | hexpired⟩ := ht.awaited s' r hr
    · refine ⟨c, hc, ?_⟩
      by_cases hxy : y.cookie = x.cookie
      · right
        have hy := ht.eq_of_cookie hy hx hxy
        rw [hy] at htag hyc
        rw [htag, ← hyc]
        simp [Running.ticket, JobQueue.post]
      · exact .inl ⟨y, Timers.mem_remove.mpr ⟨hy, hxy⟩, hyc, htag⟩
    · refine ⟨c, hc, .inr ?_⟩
      by_cases hs : s' = x.tag.service
      · subst hs
        simp [JobQueue.post, hexpired]
      · rwa [update_of_ne hs]
  · have hcases : .expiry n c ∈ (queue s').events ∨ c = x.cookie := by
      by_cases hs : s' = x.tag.service
      · subst hs
        simp only [update_self, JobQueue.post, List.mem_append, List.mem_singleton, Event.expiry.injEq] at he
        exact he.imp id And.right
      · rw [update_of_ne hs] at he
        exact .inl he
    rcases hcases with hold | rfl
    · obtain ⟨hlt, hne⟩ := ht.fired s' n c hold
      exact ⟨hlt, fun y hy => hne y (Timers.mem_remove.mp hy).1⟩
    · exact ⟨ht.issued x hx, fun y hy => (Timers.mem_remove.mp hy).2⟩

end Tended

namespace Desk

variable {i : Input} {d d' : Desk} {s : Service} {q : JobQueue} {r : Running} {h : Hub} {move : Move Activity}

/-- Before a job makes a step it can be thought of as having left, with its timer. -/
theorem Due.freed (ht : Tended d.hub.timers d.queue) (due : Due d s q r h move) :
    Tended (h.disarm r.cookie).timers (update d.queue s (q.withRunning none)) := by
  cases due with
  | hear running events concerns =>
      obtain ⟨c, hc, _⟩ := ht.awaited s r running
      rw [hc]
      exact ht.release running hc rfl fun n c he => events ▸ List.mem_cons_of_mem _ he
  | @expire r cookie rest running events own =>
      refine ht.lapse running own ?_ rfl fun n c he => events ▸ List.mem_cons_of_mem _ he
      rw [events]
      exact List.mem_cons_self
  | start idle waiting =>
      refine ht.exchange (by rw [idle]; rfl) (fun n c he => he) fun r c hr => ?_
      rw [idle] at hr
      cases hr
  | cancel running =>
      obtain ⟨c, hc, _⟩ := ht.awaited s r running
      rw [hc]
      exact ht.release running hc rfl fun n c he => he

/-- Only a message can lead to a step that neither ends the job nor takes a new timer. -/
theorem Due.hears (due : Due d s q r h move) (hm : ¬move.Renews) :
    (d.queue s).running = some r ∧ h = d.hub ∧
      ∀ n c, .expiry n c ∈ q.events ↔ .expiry n c ∈ (d.queue s).events := by
  cases due with
  | hear running events concerns => exact ⟨running, rfl, fun n c => by simp [events]⟩
  | expire running events own => exact absurd (Activity.onTimeout_renews _ _) hm
  | start idle waiting => exact absurd (Task.start_opens _ _).renews hm
  | cancel running => exact absurd trivial hm

theorem Due.kept (ht : Tended d.hub.timers d.queue) (due : Due d s q r h move) (hm : ¬move.Renews)
    (r' : Running) (hn : r'.number = r.number) (hc : r'.cookie = r.cookie) :
    Tended h.timers (update d.queue s (q.withRunning (some r'))) := by
  obtain ⟨running, rfl, hevents⟩ := due.hears hm
  refine ht.exchange ?_ (fun n c => (hevents n c).mp) fun _ _ _ _ => (hevents _ _).mpr
  rw [running, JobQueue.withRunning_running, Option.map_some, Option.map_some, hn, hc]

theorem tended_refresh {h : Hub} {queue : Service → JobQueue} (ht : Tended h.timers queue)
    (c : Option Cookie) :
    Tended (h.refresh c).timers queue := by
  cases c with
  | none => exact ht
  | some c => exact ht.refresh h.clock c

/-- Whatever a job does in a step, its queue is left with a timer for it, or without it. -/
theorem Due.tended (ht : Tended d.hub.timers d.queue) (due : Due d s q r h move) {p : Progress}
    (hf : r.Follows s h move p) :
    Tended p.hub.timers (update d.queue s (q.withRunning p.standing.running?)) := by
  have hfreed := due.freed ht
  have harmed : ∀ span activity, Tended ((h.disarm r.cookie).arm (r.ticket s) span).timers
      (update d.queue s (q.withRunning
        (some { r with activity, cookie := some (h.disarm r.cookie).timers.fresh }))) := by
    intro span activity
    have harm :=
      hfreed.arm (s := s) (by rw [update_self, JobQueue.withRunning_running]) (h.disarm r.cookie).clock
        span (q := q.withRunning (some { r with activity, cookie := some (h.disarm r.cookie).timers.fresh }))
        rfl rfl (by simp)
    rwa [update_idem] at harm
  cases hf with
  | ignored => exact due.kept ht id r rfl rfl
  | waited wait report message activity taken =>
      rw [Hub.offered_timers]
      cases wait with
      | restart span => exact harmed span activity
      | extend => exact tended_refresh (due.kept ht id { r with activity } rfl rfl) r.cookie
  | broken wait report m activity refused =>
      -- the timer that the step has armed or given more time goes with the job
      rw [Hub.retire_timers]
      cases wait with
      | restart span =>
          have hleft := (harmed span r.activity).release (s := s) (q := q.withRunning none)
            (by rw [update_self, JobQueue.withRunning_running]) rfl rfl (by simp)
          rwa [update_idem] at hleft
      | extend =>
          have hkept := tended_refresh (due.kept ht id r rfl rfl) r.cookie
          obtain ⟨c, hc, _⟩ := hkept.awaited s r (by rw [update_self, JobQueue.withRunning_running])
          have hleft := hkept.release (s := s) (q := q.withRunning none)
            (by rw [update_self, JobQueue.withRunning_running]) hc rfl (by simp)
          rw [update_idem] at hleft
          rw [Hub.await, hc]
          rw [hc] at hleft
          exact hleft
  | finished message report outcome taken =>
      cases message <;> cases hc : r.cookie <;> simpa [Hub.offered, Hub.disarm, hc,
        Standing.running?] using hfreed
  | failed m report outcome refused =>
      cases hc : r.cookie <;> simpa [Hub.offered, Hub.disarm, hc, Standing.running?] using hfreed

theorem tended_step (ht : Tended d.hub.timers d.queue) (hs : Step i d d') :
    Tended d'.hub.timers d'.queue := by
  cases hs with
  | follow due => exact due.tended ht (Running.follow_follows _ _ _ _)
  | @skip s r e rest running events stray =>
      refine ht.exchange rfl (fun n c he => events ▸ List.mem_cons_of_mem _ he) fun r' c hr' hc he => ?_
      rw [running, Option.some.injEq] at hr'
      subst hr'
      rw [events] at he
      rcases List.mem_cons.mp he with rfl | he
      · exact absurd ⟨rfl, hc⟩ stray
      · exact he
  | clear idle =>
      refine ht.exchange rfl (fun n c he => absurd he List.not_mem_nil) fun r c hr => ?_
      rw [idle] at hr
      cases hr
  | tell owing => exact ht
  | enrol asked =>
      rw [enrol_queue]
      exact ht.exchange rfl (fun n c he => he) fun _ _ _ _ he => he
  | turnAway asked busy => exact ht.exchange rfl (fun n c he => he) fun _ _ _ _ he => he
  | callOff waiting => exact ht.exchange rfl (fun n c he => he) fun _ _ _ _ he => he
  | fire armed due => exact ht.fire armed
  | deliver received subscribed =>
      obtain hsame | ⟨s, job, hpost⟩ := deliver_cases _ _ _ _
      · rwa [hsame]
      · rw [hpost]
        refine ht.exchange rfl (fun n c he => ?_) fun r c _ _ he => List.mem_append_left _ he
        simpa [JobQueue.post] using he

end Desk

namespace Tended

variable {t : Timers Ticket} {queue : Service → JobQueue} {s : Service} {r : Running}

theorem filter_idle (ht : Tended t queue) (hr : (queue s).running = none) :
    t.armed.filter (·.tag.service = s) = [] := by
  apply List.filter_eq_nil_iff.mpr
  intro x hx hs
  obtain ⟨r, hrunning, _⟩ := ht.owned x hx
  rw [of_decide_eq_true hs, hr] at hrunning
  cases hrunning

/-- A queue that has heard of all that happened has one timer armed, that of its job under way. -/
theorem filter_running (ht : Tended t queue) (hr : (queue s).running = some r) (he : (queue s).events = []) :
    ∃ x, t.armed.filter (·.tag.service = s) = [x] ∧ x.tag = r.ticket s ∧ r.cookie = some x.cookie := by
  obtain ⟨c, hc, ⟨x, hx, hxc, htag⟩ | hexpired⟩ := ht.awaited s r hr
  · have hmem : x ∈ t.armed.filter (·.tag.service = s) :=
      List.mem_filter.mpr ⟨hx, decide_eq_true (congrArg Ticket.service htag)⟩
    have honly : ∀ y ∈ t.armed.filter (·.tag.service = s), y = x := by
      intro y hy
      obtain ⟨hy, hs⟩ := List.mem_filter.mp hy
      obtain ⟨r', hr', _, hc'⟩ := ht.owned y hy
      rw [of_decide_eq_true hs, hr, Option.some.injEq] at hr'
      rw [← hr', hc, Option.some.injEq] at hc'
      exact ht.eq_of_cookie hy hx (hc'.symm.trans hxc.symm)
    have hnodup : (t.armed.filter (·.tag.service = s)).Nodup := (List.Nodup.of_map _ ht.distinct).filter _
    refine ⟨x, ?_, htag, hxc ▸ hc⟩
    exact List.perm_singleton.mp ((List.perm_ext_iff_of_nodup hnodup (List.nodup_singleton x)).mpr fun y =>
      ⟨fun hy => List.mem_singleton.mpr (honly y hy), fun hy => List.mem_singleton.mp hy ▸ hmem⟩)
  · rw [he] at hexpired
    cases hexpired

end Tended

/-- Whether no armed timer is set later than its span from now. -/
def Hub.Punctual (h : Hub) : Prop := ∀ x ∈ h.timers.armed, x.deadline.toNat ≤ h.clock.toNat + x.span.micros

namespace Hub

variable {h : Hub}

theorem after_le (now : Instant) (span : Span) : (now.after span).toNat ≤ now.toNat + span.micros := by
  rw [Instant.toNat_after]
  exact Nat.min_le_left _ _

theorem Punctual.disarm (hp : h.Punctual) (c : Option Cookie) : (h.disarm c).Punctual := by
  cases c with
  | none => exact hp
  | some c =>
      intro x hx
      exact hp x (Timers.mem_remove.mp hx).1

theorem Punctual.arm (hp : h.Punctual) (t : Ticket) (span : Span) : (h.arm t span).Punctual := by
  intro x hx
  rcases List.mem_append.mp hx with hold | hnew
  · exact hp x hold
  · rw [List.mem_singleton.mp hnew]
    exact after_le _ _

theorem Punctual.refresh (hp : h.Punctual) (c : Option Cookie) : (h.refresh c).Punctual := by
  cases c with
  | none => exact hp
  | some c =>
      intro x hx
      obtain ⟨y, hy, _, _, hspan, hold | hnew⟩ := Timers.mem_refresh hx
      · rw [hold, hspan]
        exact hp y hy
      · rw [hnew, hspan]
        exact after_le _ _

theorem Punctual.await (hp : h.Punctual) (t : Ticket) (c : Option Cookie) (w : Wait) :
    (h.await t c w).2.Punctual := by
  cases w with
  | restart span => exact (hp.disarm c).arm t span
  | extend => exact hp.refresh c

theorem Punctual.offered (hp : h.Punctual) (m : Option Message) : (h.offered m).Punctual := by
  cases m <;> exact hp

theorem Punctual.retire (hp : h.Punctual) (o : Owner) (c : Option Cookie) : (h.retire o c).Punctual :=
  hp.disarm c

theorem Punctual.mono (hp : h.Punctual) {h' : Hub} (ht : h'.timers = h.timers)
    (hc : h.clock.toNat ≤ h'.clock.toNat) : h'.Punctual := by
  intro x hx
  rw [ht] at hx
  exact Nat.le_trans (hp x hx) (Nat.add_le_add_right hc _)

end Hub

theorem Running.Follows.punctual {r : Running} {s : Service} {h : Hub} {move : Move Activity} {p : Progress}
    (hp : h.Punctual) (hf : r.Follows s h move p) : p.hub.Punctual := by
  cases hf with
  | ignored => exact hp
  | waited wait report message activity taken => exact (hp.await _ _ _).offered _
  | broken wait report m activity refused => exact ((hp.await _ _ _).offered _).retire _ _
  | finished message report outcome taken => exact (hp.offered _).retire _ _
  | failed m report outcome refused => exact (hp.offered _).retire _ _

theorem Desk.punctual_step {i : Input} {d d' : Desk} (hp : d.hub.Punctual) (hs : Step i d d') :
    d'.hub.Punctual := by
  cases hs with
  | follow due =>
      refine (Running.follow_follows _ _ _ _).punctual ?_
      cases due <;> exact hp
  | callOff waiting => exact hp.retire _ _
  | fire armed due =>
      intro x hx
      exact hp x (Timers.mem_remove.mp hx).1
  | deliver received subscribed =>
      obtain hsame | ⟨s, job, hpost⟩ := deliver_cases _ _ _ _
      · rwa [hsame]
      · rw [hpost]
        exact hp
  | _ => exact hp

end GroundLink
