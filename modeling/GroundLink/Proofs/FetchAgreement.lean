import GroundLink.Proofs.Bench
import GroundLink.Proofs.Queries

/-! The two ways to a list. A download that has been told the length of its list and a transfer that a peer
has announced by that length are two programs with one behaviour: fed the same, they send the same, have the
same of the list, ask again at the same time and end at the same step in the same way. -/

namespace GroundLink

open Running

/-- Whether two jobs are at the same point of a list. -/
structure Progress.Agrees (p q : Progress) : Prop where
  attempts : p.attempts = q.attempts
  standing : (∃ r r' c, p.standing = .running r ∧ q.standing = .running r' ∧ r.activity.collection? = some c ∧
      r'.activity.collection? = some c ∧
        (p.hub.alarm? r.cookie).map Prod.fst = (q.hub.alarm? r'.cookie).map Prod.fst) ∨
    ∃ x y, p.standing = .ended x ∧ q.standing = .ended y ∧ x.outcome = y.outcome

/-- Whether a download and a transfer that was announced are at the same point of a
list, with their timers. -/
structure Paired (l : ListRef) (r : Running) (h : Hub) (r' : Running) (h' : Hub) : Prop where
  collecting : ∃ w n c, r.activity = .download ⟨l, w⟩ (.collecting c) ∧ r'.activity = .receive ⟨l, n⟩ c
  like : h.Like h'
  alarm : h.alarm? r.cookie = h'.alarm? r'.cookie
  awaiting : r.cookie.isSome = r'.cookie.isSome
  fresh : h.Fresh r.cookie
  fresh' : h'.Fresh r'.cookie

/-- Whether two jobs have come to the same: both are under way and paired, or both have
ended in the same way. -/
structure Level (l : ListRef) (p q : Progress) : Prop where
  attempts : p.attempts = q.attempts
  standing : (∃ r r', p.standing = .running r ∧ q.standing = .running r' ∧ Paired l r p.hub r' q.hub) ∨
    ∃ x y, p.standing = .ended x ∧ q.standing = .ended y ∧ x.outcome = y.outcome

section
variable {l : ListRef} {s s' : Service} {r r' : Running} {h h' : Hub} {p q : Progress}

theorem Level.agrees (hl : Level l p q) : p.Agrees q := by
  refine ⟨hl.attempts, ?_⟩
  rcases hl.standing with ⟨r, r', hr, hr', hpaired⟩ | hended
  · obtain ⟨w, n, c, ha, ha'⟩ := hpaired.collecting
    exact .inl ⟨r, r', c, hr, hr', by rw [ha]; rfl, by rw [ha']; rfl, by rw [hpaired.alarm]⟩
  · exact .inr hended

theorem attempts_report (r : Running) (s : Service) (f : Option Fraction) :
    (r.report s f).filterMap Effect.attempt? = [] := by
  refine List.filterMap_eq_nil_iff.mpr fun e he => ?_
  obtain ⟨x, -, rfl⟩ := mem_report he
  rfl

theorem attempts_sent (t : Ticket) (m : Option Message) :
    (m.toList.map (Effect.sent t)).filterMap Effect.attempt? = m.toList.map fun m => (true, m) := by
  cases m <;> rfl

theorem Hub.Like.accepts (hl : h.Like h') (m : Message) : h'.link.accepts m = h.link.accepts m :=
  congrArg (·.takes m) hl.acceptance

theorem attempts_refused (t : Ticket) (m : Message) :
    [Effect.refused t m].filterMap Effect.attempt? = [(false, m)] :=
  rfl

/-- Two jobs that end with the same message and the same outcome. -/
theorem level_finish (hl : h.Like h') (hrefusal : r.activity.task.refusal = r'.activity.task.refusal)
    (m : Option Message) (f f' : Option Fraction) (o : Outcome) :
    Level l (r.follow s h (.finish m f o)) (r'.follow s' h' (.finish m f' o)) := by
  have hf := r.follow_follows s h (.finish m f o)
  have hf' := r'.follow_follows s' h' (.finish m f' o)
  generalize r.follow s h (.finish m f o) = p at hf
  generalize r'.follow s' h' (.finish m f' o) = q at hf'
  cases hf with
  | finished _ _ _ taken =>
      cases hf' with
      | finished _ _ _ taken' =>
          refine ⟨?_, .inr ⟨_, _, rfl, rfl, rfl⟩⟩
          simp only [Progress.attempts, List.filterMap_append, attempts_report, attempts_sent]
      | failed m _ _ refused =>
          rw [hl.accepts, taken m rfl] at refused
          cases refused
  | failed m _ _ refused =>
      cases hf' with
      | finished _ _ _ taken' =>
          rw [← hl.accepts, taken' m rfl] at refused
          cases refused
      | failed _ _ _ refused' =>
          refine ⟨?_, .inr ⟨_, _, rfl, rfl, congrArg Outcome.failure hrefusal⟩⟩
          simp only [Progress.attempts, attempts_refused]

/-- Two jobs that wait on with the same message, at the same point of the list and for as long. -/
theorem level_proceed {a a' : Activity} {w w' : Wait} (hl : h.Like h')
    (hrefusal : r.activity.task.refusal = r'.activity.task.refusal)
    (ha : ∃ wants n c, a = .download ⟨l, wants⟩ (.collecting c) ∧ a' = .receive ⟨l, n⟩ c)
    (halarm : (h.await (r.ticket s) r.cookie w).2.alarm? (h.await (r.ticket s) r.cookie w).1 =
      (h'.await (r'.ticket s') r'.cookie w').2.alarm? (h'.await (r'.ticket s') r'.cookie w').1)
    (hawaiting : (h.await (r.ticket s) r.cookie w).1.isSome = (h'.await (r'.ticket s') r'.cookie w').1.isSome)
    (hfresh : h.Fresh r.cookie) (hfresh' : h'.Fresh r'.cookie) (m : Option Message) (f f' : Option Fraction) :
    Level l (r.follow s h (.proceed w f m a)) (r'.follow s' h' (.proceed w' f' m a')) := by
  have hf := r.follow_follows s h (.proceed w f m a)
  have hf' := r'.follow_follows s' h' (.proceed w' f' m a')
  generalize r.follow s h (.proceed w f m a) = p at hf
  generalize r'.follow s' h' (.proceed w' f' m a') = q at hf'
  cases hf with
  | waited _ _ _ _ taken =>
      cases hf' with
      | waited _ _ _ _ taken' =>
          refine ⟨?_, .inl ⟨_, _, rfl, rfl, ?_⟩⟩
          · simp only [Progress.attempts, List.filterMap_append, attempts_report, attempts_sent]
          · have hlike := (h.like_await (r.ticket s) r.cookie w).symm.trans
              (hl.trans (h'.like_await (r'.ticket s') r'.cookie w'))
            refine ⟨ha, hlike.offered m, ?_, hawaiting, (hfresh.await _ _).offered m,
              (hfresh'.await _ _).offered m⟩
            rw [Hub.alarm?_offered, Hub.alarm?_offered]
            exact halarm
      | broken _ _ m _ refused =>
          rw [hl.accepts, taken m rfl] at refused
          cases refused
  | broken _ _ m _ refused =>
      cases hf' with
      | waited _ _ _ _ taken' =>
          rw [← hl.accepts, taken' m rfl] at refused
          cases refused
      | broken _ _ _ _ refused' =>
          refine ⟨?_, .inr ⟨_, _, rfl, rfl, congrArg Outcome.failure hrefusal⟩⟩
          simp only [Progress.attempts, List.filterMap_append, attempts_report, attempts_refused]

theorem Paired.refusal (hp : Paired l r h r' h') : r.activity.task.refusal = r'.activity.task.refusal := by
  obtain ⟨wants, n, c, ha, ha'⟩ := hp.collecting
  rw [ha, ha']
  rfl

/-- Two jobs at the same point of a list stay level if they make the same move. -/
theorem Paired.level (hp : Paired l r h r' h') (move : Move Collection) (wants : Bool) (n : Nat) :
    Level l (r.follow s h ((move.map .collecting).map (.download ⟨l, wants⟩)))
      (r'.follow s' h' (move.map (.receive ⟨l, n⟩))) := by
  cases move with
  | ignore => exact ⟨rfl, .inl ⟨r, r', rfl, rfl, hp⟩⟩
  | proceed w f m c =>
      refine level_proceed hp.like hp.refusal ⟨wants, n, c, rfl, rfl⟩ ?_ ?_ hp.fresh hp.fresh' m f f
      · cases w with
        | restart span => rw [Hub.alarm?_restart hp.fresh, Hub.alarm?_restart hp.fresh', hp.like.clock]
        | extend => rw [Hub.alarm?_extend, Hub.alarm?_extend, hp.alarm, hp.like.clock]
      · cases w with
        | restart span => rfl
        | extend => exact hp.awaiting
  | finish m f o => exact level_finish hp.like hp.refusal m f f o

/-- A step of both jobs keeps them level if it does while they are under way. -/
theorem Level.go (hl : Level l p q) (f g : Running → Hub → Progress)
    (hstep : ∀ r r', Paired l r p.hub r' q.hub → Level l (f r p.hub) (g r' q.hub)) :
    Level l (p.go f) (q.go g) := by
  rcases hl.standing with ⟨r, r', hr, hr', hpaired⟩ | ⟨x, y, hx, hy, -⟩
  · have hone := hstep r r' hpaired
    simp only [Progress.go, hr, hr']
    refine ⟨?_, hone.standing⟩
    have hmore := hone.attempts
    have hsofar := hl.attempts
    simp only [Progress.attempts, Progress.preceded, List.filterMap_append] at hmore hsofar ⊢
    rw [hmore, hsofar]
  · simpa only [Progress.go, hx, hy] using hl

theorem Level.withHub (hl : Level l p q) (hub hub' : Hub)
    (hkeep : ∀ r r', Paired l r p.hub r' q.hub → Paired l r hub r' hub') :
    Level l (p.withHub hub) (q.withHub hub') := by
  refine ⟨hl.attempts, ?_⟩
  rcases hl.standing with ⟨r, r', hr, hr', hpaired⟩ | hended
  · exact .inl ⟨r, r', hr, hr', hkeep r r' hpaired⟩
  · exact .inr hended

theorem Paired.take (hp : Paired l r h r' h') (header : Header) (m : Message) :
    Level l (r.take s h (.message (some r.number) header m))
      (r'.take s' h' (.message (some r'.number) header m)) := by
  obtain ⟨wants, n, c, ha, ha'⟩ := hp.collecting
  rw [Running.take, if_pos (.inr rfl), Running.take, if_pos (.inr rfl), ha, ha']
  cases m with
  | missionItemInt item => exact hp.level (c.onItem l item) wants n
  | _ => exact hp.level .ignore wants n

theorem Paired.lapse (hp : Paired l r h r' h') : Paired l r (h.lapse r.cookie) r' (h'.lapse r'.cookie) := by
  have hlike := (h.like_lapse r.cookie).symm.trans (hp.like.trans (h'.like_lapse r'.cookie))
  refine ⟨hp.collecting, hlike, ?_, hp.awaiting, hp.fresh.lapse _, hp.fresh'.lapse _⟩
  rw [Hub.alarm?_lapse, Hub.alarm?_lapse, hp.alarm, hp.like.clock]

/-- Both jobs hear that their timers went off. -/
theorem Paired.timeout {side side' : Side} (hp : Paired l r h r' h') :
    Level l ({ r with cookie := none }.follow (.mission side) h
      (r.activity.onTimeout (h.setting (.mission side))))
      ({ r' with cookie := none }.follow (.mission side') h'
        (r'.activity.onTimeout (h'.setting (.mission side')))) := by
  obtain ⟨wants, n, c, ha, ha'⟩ := hp.collecting
  have hless : Paired l { r with cookie := none } h { r' with cookie := none } h' :=
    ⟨hp.collecting, hp.like, rfl, rfl, hp.fresh.none, hp.fresh'.none⟩
  have hpolicy : (h'.setting (.mission side')).policy = (h.setting (.mission side)).policy := by
    simp only [Hub.setting, Hub.policy, hp.like.timeout, hp.like.retries]
  have hmove : r.activity.onTimeout (h.setting (.mission side)) =
      ((c.onTimeout (h.setting (.mission side)).policy l).map .collecting).map (.download ⟨l, wants⟩) := by
    rw [ha]
    rfl
  have hmove' : r'.activity.onTimeout (h'.setting (.mission side')) =
      (c.onTimeout (h.setting (.mission side)).policy l).map (.receive ⟨l, n⟩) := by
    rw [ha', Activity.onTimeout, hpolicy]
  rw [hmove, hmove']
  exact hless.level _ wants n

theorem Paired.expire {side side' : Side} (hp : Paired l r h r' h') :
    Level l (r.expire (.mission side) h) (r'.expire (.mission side') h') := by
  have hstay : Level l ⟨.running r, h, []⟩ ⟨.running r', h', []⟩ := ⟨rfl, .inl ⟨r, r', rfl, rfl, hp⟩⟩
  have halarm := hp.alarm
  have hawaiting := hp.awaiting
  rw [Running.expire, Running.expire]
  cases hc : r.cookie with
  | none =>
      rw [hc, Option.isSome_none, eq_comm, Option.isSome_eq_false_iff, Option.isNone_iff_eq_none] at hawaiting
      simpa only [hawaiting] using hstay
  | some d =>
      rw [hc, Option.isSome_some, eq_comm, Option.isSome_iff_exists] at hawaiting
      obtain ⟨d', hc'⟩ := hawaiting
      rw [hc, hc'] at halarm
      simp only [hc', ← halarm]
      by_cases harmed : (h.alarm? (some d)).isSome = true
      · rw [if_pos harmed, if_pos harmed]
        exact hstay
      · rw [if_neg harmed, if_neg harmed, Running.take, if_pos ⟨rfl, hc⟩, Running.take, if_pos ⟨rfl, hc'⟩]
        exact hp.timeout

theorem Paired.cancel (hp : Paired l r h r' h') : Level l (r.cancel s h) (r'.cancel s' h') := by
  obtain ⟨wants, n, c, ha, ha'⟩ := hp.collecting
  rw [Running.cancel, Running.cancel, ha, ha']
  exact level_finish hp.like hp.refusal _ _ _ _

/-- Whatever both jobs are fed, they stay level. -/
theorem Level.feed {side side' : Side} (hl : Level l p q) (f : Feed) :
    Level l (p.feed (.mission side) f) (q.feed (.mission side') f) := by
  cases f with
  | message header m =>
      exact hl.go (fun r h => r.take _ h (.message (some r.number) header m))
        (fun r h => r.take _ h (.message (some r.number) header m)) fun r r' hp => hp.take header m
  | pass =>
      exact hl.go (fun r h => ⟨.running r, h.lapse r.cookie, []⟩)
        (fun r h => ⟨.running r, h.lapse r.cookie, []⟩)
        fun r r' hp => ⟨rfl, .inl ⟨r, r', rfl, rfl, hp.lapse⟩⟩
  | expiry =>
      exact hl.go (fun r h => r.expire _ h) (fun r h => r.expire _ h) fun r r' hp => hp.expire
  | cancel =>
      exact hl.go (fun r h => r.cancel _ h) (fun r h => r.cancel _ h) fun r r' hp => hp.cancel
  | clock now =>
      refine hl.withHub _ _ fun r r' hp => ?_
      exact ⟨hp.collecting, ⟨rfl, hp.like.timeout, hp.like.retries, hp.like.acceptance⟩,
        hp.alarm, hp.awaiting, hp.fresh.congr rfl, hp.fresh'.congr rfl⟩
  | accept acceptance =>
      refine hl.withHub _ _ fun r r' hp => ?_
      exact ⟨hp.collecting, ⟨hp.like.clock, hp.like.timeout, hp.like.retries, rfl⟩, hp.alarm, hp.awaiting,
        hp.fresh.congr rfl, hp.fresh'.congr rfl⟩

/-- A download that knows the length of its list is not told another. -/
theorem Level.feed_count {side : Side} (hl : Level l p q) (header : Header) (m : MissionCount) :
    p.feed (.mission side) (.message header (.missionCount m)) = p := by
  obtain ⟨standing, hub, effects⟩ := p
  rcases hl.standing with ⟨r, r', rfl, -, hp⟩ | ⟨x, y, rfl, -, -⟩
  · obtain ⟨w, n, c, ha, -⟩ := hp.collecting
    have htake : r.take (.mission side) hub (.message (some r.number) header (.missionCount m)) =
        ⟨.running r, hub, []⟩ := by
      rw [Running.take, if_pos (.inr rfl), ha]
      rfl
    simp only [Progress.feed, Progress.go, htake, Progress.preceded, List.append_nil]
  · rfl

/-- However long both jobs are fed, they stay level. The counts among it are for neither. -/
theorem Level.feedAll (hl : Level l p q) (side side' : Side) (feeds : List Feed) :
    Level l (p.feedAll (.mission side) feeds) (q.feedAll (.mission side') (feeds.filter (!·.isCount))) ∧
      p.feedAll (.mission side) feeds = p.feedAll (.mission side) (feeds.filter (!·.isCount)) := by
  induction feeds generalizing p q with
  | nil => exact ⟨hl, rfl⟩
  | cons f rest ih =>
      by_cases hcount : f.isCount = true
      · obtain ⟨header, m, rfl⟩ := Feed.isCount_iff.mp hcount
        rw [Progress.feedAll, List.foldl_cons, hl.feed_count, List.filter_cons_of_neg (by simp [hcount])]
        exact ih hl
      · rw [List.filter_cons_of_pos (by simpa using hcount)]
        exact ih (hl.feed f)

end

/-- Whether a step that takes a new timer takes one of the given span. -/
def Move.Paced {σ : Type} (timeout : Span) : Move σ → Prop
  | proceed (.restart span) _ _ _ => span = timeout
  | _ => True

theorem Move.paced_map {σ ρ : Type} (timeout : Span) (f : σ → ρ) (m : Move σ) :
    (m.map f).Paced timeout ↔ m.Paced timeout := by
  cases m with
  | proceed wait report message state => cases wait <;> rfl
  | _ => rfl

theorem Activity.paced_onTimeout {a : Activity} {t : Transfer} (h : a.task = .transfer t) (s : Setting) :
    (a.onTimeout s).Paced s.policy.timeout := by
  rw [onTimeout_transfer h]
  split
  · trivial
  · rfl

theorem Collection.paced_onItem (timeout : Span) (l : ListRef) (c : Collection) (m : MissionItemInt) :
    (c.onItem l m).Paced timeout := by
  unfold onItem
  split
  · trivial
  · simp only
    split <;> trivial

theorem Download.paced_onMessage (timeout : Span) (d : Download) (st : Download.State) (m : Message) :
    (d.onMessage st m).Paced timeout := by
  cases m with
  | missionCount c =>
      cases st with
      | listing k =>
          simp only [onMessage, onCount]
          split <;> trivial
      | collecting c => trivial
  | missionItemInt i =>
      cases st with
      | listing k => trivial
      | collecting c => exact (Move.paced_map _ _ _).mpr (c.paced_onItem timeout d.list i)
  | _ => trivial

/-- A download under way on a hub, with what is known of its timer. -/
structure Running.Downloads (d : Download) (r : Running) (h : Hub) : Prop where
  activity : ∃ st, r.activity = .download d st
  fresh : h.Fresh r.cookie
  span : ∀ a, h.alarm? r.cookie = some a → a.2 = h.timeout

/-- Whether a job is a download for as long as it is under way. -/
def Progress.Downloads (d : Download) (p : Progress) : Prop :=
  ∀ r, p.standing = .running r → r.Downloads d p.hub

section
variable {d : Download} {s : Service} {r : Running} {h : Hub} {p : Progress}

theorem Running.Downloads.await (hd : r.Downloads d h) (t : Ticket) {w : Wait}
    (hw : ∀ span, w = .restart span → span = h.timeout) {a : Instant × Span}
    (ha : (h.await t r.cookie w).2.alarm? (h.await t r.cookie w).1 = some a) : a.2 = h.timeout := by
  cases w with
  | restart span =>
      rw [Hub.alarm?_restart hd.fresh, Option.some.injEq] at ha
      rw [← ha]
      exact hw span rfl
  | extend =>
      rw [Hub.alarm?_extend, Option.map_eq_some_iff] at ha
      obtain ⟨b, hb, rfl⟩ := ha
      exact hd.span b hb

/-- A download is one after every step, if the step keeps to the timeout. -/
theorem Running.Downloads.follow (hd : r.Downloads d h) (move : Move Download.State)
    (hpaced : move.Paced h.timeout) :
    (r.follow s h (move.map (.download d))).Downloads d := by
  have hf := r.follow_follows s h (move.map (.download d))
  intro r' hr'
  cases move with
  | ignore =>
      cases hf
      cases hr'
      exact hd
  | proceed wait report message st =>
      rw [Move.map] at hf hr' ⊢
      generalize r.follow s h (.proceed wait report message (.download d st)) = p at hf hr' ⊢
      cases hf with
      | waited _ _ _ _ _ =>
          cases hr'
          have hlike := h.like_await (r.ticket s) r.cookie wait
          refine ⟨⟨st, rfl⟩, (hd.fresh.await _ _).offered _, fun a ha => ?_⟩
          rw [Hub.alarm?_offered] at ha
          have hspan := hd.await (r.ticket s) (fun span hw => by subst hw; exact hpaced) ha
          cases message <;> exact hspan.trans hlike.timeout.symm
      | broken _ _ _ _ _ => cases hr'
  | finish message report outcome =>
      rw [Move.map] at hf hr' ⊢
      generalize r.follow s h (.finish message report outcome) = p at hf hr' ⊢
      cases hf <;> cases hr'

theorem Progress.Downloads.go (hp : p.Downloads d) (f : Running → Hub → Progress)
    (hstep : ∀ r, r.Downloads d p.hub → (f r p.hub).Downloads d) : (p.go f).Downloads d := by
  intro r' hr'
  cases hs : p.standing with
  | running r =>
      simp only [Progress.go, hs] at hr' ⊢
      exact hstep r (hp r hs) r' hr'
  | ended x =>
      simp only [Progress.go, hs] at hr'
      cases hr'

theorem Running.Downloads.take (hd : r.Downloads d h) (header : Header) (m : Message) :
    (r.take s h (.message (some r.number) header m)).Downloads d := by
  obtain ⟨st, ha⟩ := hd.activity
  rw [Running.take, if_pos (.inr rfl), ha]
  exact hd.follow _ (d.paced_onMessage _ st m)

theorem Running.Downloads.lapse (hd : r.Downloads d h) : r.Downloads d (h.lapse r.cookie) := by
  refine ⟨hd.activity, hd.fresh.lapse _, fun a ha => ?_⟩
  rw [Hub.alarm?_lapse] at ha
  split at ha
  · cases ha
  · exact (hd.span a ha).trans (h.like_lapse r.cookie).timeout.symm

theorem Running.Downloads.expire {side : Side} (hd : r.Downloads d h) :
    (r.expire (.mission side) h).Downloads d := by
  have hstay : Progress.Downloads d ⟨.running r, h, []⟩ := fun r' hr' => by cases hr'; exact hd
  rw [Running.expire]
  cases hc : r.cookie with
  | none => exact hstay
  | some c =>
      by_cases harmed : (h.alarm? (some c)).isSome = true
      · simpa only [if_pos harmed] using hstay
      · obtain ⟨st, ha⟩ := hd.activity
        have hless : Running.Downloads d { r with cookie := none } h := ⟨⟨st, ha⟩, hd.fresh.none, nofun⟩
        have hmove : r.activity.onTimeout (h.setting (.mission side)) =
            (d.onTimeout (h.policy (.mission side)) st).map (.download d) := by
          rw [ha]
          rfl
        have hpaced := Activity.paced_onTimeout (a := .download d st) rfl (h.setting (.mission side))
        simp only [if_neg harmed, Running.take, hc, and_self, if_true]
        rw [hmove]
        exact hless.follow _ ((Move.paced_map _ _ _).mp hpaced)

/-- Whatever a download is fed, it keeps to the timeout. -/
theorem Progress.Downloads.feed {side : Side} (hp : p.Downloads d) (f : Feed) :
    (p.feed (.mission side) f).Downloads d := by
  cases f with
  | message header m =>
      exact hp.go (fun r h => r.take _ h (.message (some r.number) header m)) fun r hd => hd.take header m
  | pass =>
      exact hp.go (fun r h => ⟨.running r, h.lapse r.cookie, []⟩)
        fun r hd r' hr' => by cases hr'; exact hd.lapse
  | expiry => exact hp.go (fun r h => r.expire _ h) fun r hd => hd.expire
  | cancel =>
      refine hp.go (fun r h => r.cancel _ h) fun r hd => ?_
      exact hd.follow (.finish r.activity.farewell? none (.failed .cancelled)) trivial
  | clock now => exact fun r hr => ⟨(hp r hr).activity, (hp r hr).fresh.congr rfl, (hp r hr).span⟩
  | accept a => exact fun r hr => ⟨(hp r hr).activity, (hp r hr).fresh.congr rfl, (hp r hr).span⟩

theorem Progress.Downloads.feedAll {side : Side} (hp : p.Downloads d) (feeds : List Feed) :
    (p.feedAll (.mission side) feeds).Downloads d := by
  induction feeds generalizing p with
  | nil => exact hp
  | cons f rest ih => exact ih (hp.feed f)

theorem Waiting.downloads_start {w : Waiting} (hw : w.task = .transfer (.download d)) (hfresh : h.Fresh none)
    (s : Service) : (w.start s h).Downloads d := by
  rw [Waiting.start, hw]
  refine Running.Downloads.follow ⟨⟨.listing 0, rfl⟩, ?_, ?_⟩ (d.start (h.policy s)) ?_
  · exact hfresh.congr rfl
  · intro a ha
    cases ha
  · cases s <;> rfl

/-- The point at which both ways to a list become one: a download with its timer armed is told how long the
list is, and a transfer starts that was announced to be as long. -/
theorem Running.Downloads.level {s' : Service} {r' : Running} {h' : Hub} {k n : Nat} (side : Side)
    (hd : r.Downloads d h) (hlisting : r.activity = .download d (.listing k))
    (harmed : (h.alarm? r.cookie).isSome = true) (hl : h.Like h') (hnew : r'.cookie = none)
    (hfresh' : h'.Fresh none) (hrefusal : r'.activity.task.refusal = .transfer .connectionError)
    (hfits : n ≤ maxItems) :
    Level d.list (r.follow s h ((d.onCount n (.listing k)).map (.download d)))
      (r'.follow s' h' ((Receive.start (h'.policy (.mission side)) ⟨d.list, n⟩).map
        (.receive ⟨d.list, n⟩))) := by
  have hsame : r.activity.task.refusal = r'.activity.task.refusal := by rw [hrefusal, hlisting]; rfl
  rw [Download.onCount, Receive.start, if_neg (Nat.not_lt.mpr hfits)]
  by_cases hzero : n = 0
  · rw [if_pos hzero, if_pos hzero]
    exact level_finish hl hsame _ _ _ _
  · rw [if_neg hzero, if_neg hzero]
    obtain ⟨a, ha⟩ := Option.isSome_iff_exists.mp harmed
    have hcookie : r.cookie.isSome = true := by
      rw [Option.isSome_iff_ne_none]
      intro hnone
      rw [hnone] at ha
      cases ha
    have hspan : a.2 = (h'.policy (.mission side)).timeout := (hd.span a ha).trans hl.timeout.symm
    have hfresh₀ : h'.Fresh r'.cookie := hnew ▸ hfresh'
    refine level_proceed hl hsame ⟨d.wantsProgress, n, .opening n, rfl, rfl⟩ ?_ ?_ hd.fresh hfresh₀ _ _ _
    · rw [Hub.alarm?_extend, Hub.alarm?_restart hfresh₀, ha, Option.map_some, hspan, hl.clock]
    · exact hcookie

theorem Running.Downloads.level_start {w : Waiting} {h' : Hub} {k : Nat} {m : MissionCount}
    (side side' : Side) (hd : r.Downloads d h) (hlisting : r.activity = .download d (.listing k))
    (harmed : (h.alarm? r.cookie).isSome = true) (hl : h.Like h') (hfresh' : h'.Fresh none)
    (hw : w.task = .transfer (.receive ⟨d.list, m.count.toNat⟩)) (header : Header) :
    Level d.list (r.take (.mission side) h (.message (some r.number) header (.missionCount m)))
      (w.start (.mission side') h') := by
  rw [Running.take, if_pos (.inr rfl), hlisting, Waiting.start, hw]
  exact hd.level side' hlisting harmed ⟨hl.clock, hl.timeout, hl.retries, hl.acceptance⟩ rfl
    (hfresh'.congr rfl) rfl (Nat.le_of_lt_succ m.count.toNat_lt)

end

/-- A download whose timer is armed when it is told the length of its list, and a transfer that starts then
and was announced to be as long, agree from there on, whatever both are fed. What else the download is told of
a length has no effect. -/
theorem Progress.fetches_agree (w w' : Waiting) {d : Download} {h h' : Hub} {before : List Feed} {r : Running}
    {k : Nat} {m : MissionCount} (hw : w.task = .transfer (.download d))
    (hw' : w'.task = .transfer (.receive ⟨d.list, m.count.toNat⟩)) (hfresh : h.Fresh none)
    (hfresh' : h'.Fresh none) (hr : (w.bench (.mission .client) h before).standing = .running r)
    (hlisting : r.activity = .download d (.listing k))
    (harmed : ((w.bench (.mission .client) h before).hub.alarm? r.cookie).isSome = true)
    (hl : (w.bench (.mission .client) h before).hub.Like h') (header : Header) (feeds : List Feed) :
    let told := r.take (.mission .client) (w.bench (.mission .client) h before).hub
      (.message (some r.number) header (.missionCount m))
    let others := feeds.filter (!·.isCount)
    (told.feedAll (.mission .client) feeds).Agrees (w'.bench (.mission .server) h' others) ∧
      told.feedAll (.mission .client) feeds = told.feedAll (.mission .client) others := by
  have hdownloads := ((w.downloads_start hw hfresh (.mission .client)).feedAll before) r hr
  have hlevel := hdownloads.level_start .client .server hlisting harmed hl hfresh' hw' header
  obtain ⟨hlevel', hcounts⟩ := hlevel.feedAll .client .server feeds
  exact ⟨hlevel'.agrees, hcounts⟩

/-- Two items, the first of which comes twice and the second only after silence. A second
count comes between them. -/
theorem Progress.fetches_agree_two :
    let d : Download := ⟨⟨.pilotOf 1, .mission⟩, true⟩
    let hub : Hub := ⟨0, .ofMillis 500, 3, 5, default, .empty, .empty⟩
    let header : Header := ⟨.pilotOf 1, 0⟩
    let item (seq : UInt16) : Feed :=
      .message header (.missionItemInt { (default : MissionItemInt) with seq })
    let count : MissionCount := ⟨2, .pilotOf 255, .mission⟩
    let w : Waiting := ⟨0, 1, .transfer (.download d)⟩
    let w' : Waiting := ⟨0, 1, .transfer (.receive ⟨d.list, 2⟩)⟩
    let before : List Feed := [.clock 300000]
    let feeds : List Feed :=
      [item 0, .message header (.missionCount count), item 0, .clock 9000000, .pass, .expiry, item 1]
    let r : Running := ⟨0, 1, .download d (.listing 1), some 0⟩
    (w.bench (.mission .client) hub before).standing = .running r ∧
      let told := r.take (.mission .client) (w.bench (.mission .client) hub before).hub
        (.message (some r.number) header (.missionCount count))
      let others := feeds.filter (!·.isCount)
      (told.feedAll (.mission .client) feeds).Agrees
          (w'.bench (.mission .server) { hub with clock := 300000 } others) ∧
        told.feedAll (.mission .client) feeds = told.feedAll (.mission .client) others ∧
        (told.feedAll (.mission .client) feeds).attempts.length = 4 := by
  intro d hub header item count w w' before feeds r
  have hempty : ∀ clock, Hub.Fresh { hub with clock } none :=
    fun clock => ⟨fun x hx => (List.not_mem_nil hx).elim, nofun⟩
  have hr : (w.bench (.mission .client) hub before).standing = .running r := rfl
  obtain ⟨hagrees, hcounts⟩ := fetches_agree w w' (d := d) (m := count) rfl rfl (hempty 0) (hempty 300000)
    hr rfl (by decide +kernel) ⟨by decide +kernel, by decide +kernel, by decide +kernel, rfl⟩ header feeds
  exact ⟨hr, hagrees, hcounts, by decide +kernel⟩

end GroundLink
