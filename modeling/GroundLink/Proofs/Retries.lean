import GroundLink.Proofs.Budget

/-! How commands are given up. When the timer of a command has run out, a look at everything brings one expiry
of it, and each expiry uses up a retry or, if none is left, ends the command. So if no answer counts any more,
it is given up when its time has been up once more than it has retries left (`Desk.Outlasts`); with the
balance of what is sent and the retries that are left, this is all there is to the retries of commands
(`Engine.run_keeps_budget`). -/

namespace GroundLink

open Function

namespace Desk

open Deed

variable {i : Input} {d d' : Desk} {deeds past : List Deed} {x : Deed} {n : Nat} {h : Hub} {p : Progress}

/-- How it stands with a command that had so many retries left when something was done before: it has used one
up each time its time was up since then, and when none was left it ended. -/
inductive Outlasts (n : Nat) (a : Attempt) (k : Nat) (d : Desk) (before past : List Deed) : Prop
  | waits {r : Running} (running : (d.queue .commands).running = some r) (number : r.number = n)
      (le : expiries n past ≤ k) (activity : r.activity = .command a (k - expiries n past))
  | givenUp (expired : expiries n past = k + 1) (concluded : n ∈ concluded .commands (before ++ past))
      (ends : ⟨n, .commandFailed .timeout⟩ ∈ past.filterMap (ends? .commands))

variable {a : Attempt} {k : Nat} {before : List Deed}

theorem Outlasts.quiet (h : Outlasts n a k d before past) (hquiet : ∀ x ∈ deeds, x.actor? = none)
    (hrunning : (d'.queue .commands).running = (d.queue .commands).running) :
    Outlasts n a k d' before (past ++ deeds) := by
  have hexpiries : expiries n (past ++ deeds) = expiries n past := by
    rw [expiries_append, expiries_quiet hquiet, Nat.add_zero]
  cases h with
  | waits running number le activity =>
      rw [← hexpiries] at le activity
      exact .waits (hrunning.trans running) number le activity
  | givenUp expired concluded ends =>
      refine .givenUp (hexpiries.trans expired) ?_ ?_
      · rw [← List.append_assoc, Deed.concluded, List.filterMap_append]
        exact List.mem_append_left _ concluded
      · rw [List.filterMap_append]
        exact List.mem_append_left _ ends

/-- A command that has ended stays so. -/
theorem Outlasts.givenUp_concat (hexpired : expiries n past = k + 1)
    (hconcluded : n ∈ concluded .commands (before ++ past))
    (hends : ⟨n, .commandFailed .timeout⟩ ∈ past.filterMap (ends? .commands)) (hx : x.isExpiryOf n = false) :
    Outlasts n a k d' before (past ++ [x]) := by
  refine .givenUp ?_ ?_ ?_
  · rw [expiries_append, expiries_singleton, hx]
    exact hexpired
  · rw [← List.append_assoc, Deed.concluded, List.filterMap_append]
    exact List.mem_append_left _ hconcluded
  · rw [List.filterMap_append]
    exact List.mem_append_left _ hends

theorem Outlasts.heeded {r : Running} {e : Event} {q : JobQueue}
    (hspares : (Deed.heeded ⟨r, d.hub, e⟩).Spares n) (concerns : e.Concerns r) (number : r.number = n)
    (le : expiries n past ≤ k) (activity : r.activity = .command a (k - expiries n past)) :
    Outlasts n a k (d.after .commands q (r.take .commands d.hub e)) before
      (past ++ [.heeded ⟨r, d.hub, e⟩]) := by
  subst number
  have hp := Running.take_pursues activity d.hub concerns
  generalize hprogress : r.take .commands d.hub e = p at hp
  generalize hleft : k - expiries r.number past = left at hp
  have hstep : (Deed.heeded ⟨r, d.hub, e⟩).progress? .commands = some p := congrArg some hprogress
  have hqueue : ((d.after .commands q p).queue .commands).running = p.standing.running? := by
    simp [Desk.after]
  have hquiet : ∀ job header m, expiries r.number (past ++ [.heeded ⟨r, d.hub, .message job header m⟩]) =
      expiries r.number past := fun _ _ _ => expiries_append _ _ _
  have hup : ∀ c, expiries r.number (past ++ [.heeded ⟨r, d.hub, .expiry r.number c⟩]) =
      expiries r.number past + 1 := by
    intro c
    have hown : isExpiryOf r.number (.heeded ⟨r, d.hub, .expiry r.number c⟩) = true := decide_eq_true rfl
    rw [expiries_append, expiries_singleton, if_pos hown]
  cases hp with
  | ignored idle =>
      refine .waits hqueue rfl ?_ ?_
      · rwa [hquiet]
      · rwa [hquiet]
  | settled minded idle ended notTimeout silent =>
      rw [hspares.minds_eq_false activity] at minded
      cases minded
  | prolonged progress running' goesOn reports =>
      have hminded := Attempt.minds_of_isProgress progress
      rw [hspares.minds_eq_false activity] at hminded
      cases hminded
  | exhausted own ended silent =>
      refine .givenUp ?_ ?_ ?_
      · rw [hup]
        omega
      · rw [← List.append_assoc, Deed.concluded, List.filterMap_append]
        refine List.mem_append_right _ (List.mem_filterMap.mpr ⟨_, List.mem_singleton_self _, ?_⟩)
        rw [concludes?, hstep, Option.bind_some, ended]
        rfl
      · rw [List.filterMap_append]
        refine List.mem_append_right _ (List.mem_filterMap.mpr ⟨_, List.mem_singleton_self _, ?_⟩)
        rw [ends?_of_progress? hstep, ended]
        rfl
  | repeated own taken running' goesOn sends =>
      refine .waits (by rw [hqueue, running']; rfl) goesOn.number ?_ ?_
      · rw [hup]
        omega
      · rw [hup, goesOn.activity]
        congr 1
        omega
  | @refused _ c _ own refused ended offers =>
      refine absurd ?_ (hspares.not_refused (a.request.message d.hub.link.autopilot))
      have hshown : shown .commands (.heeded ⟨r, d.hub, .expiry r.number c⟩) = p.effects := by
        simp [shown, hstep]
      rw [hshown, offers]
      exact List.mem_singleton_self _

theorem Outlasts.plays (h : Outlasts n a k d before past) (hf : Filed .commands d (before ++ past))
    (hplays : Act.Plays .commands d x d') (hspares : x.Spares n) (hcancel : x.isCancelled = false) :
    Outlasts n a k d' before (past ++ [x]) := by
  cases hplays with
  | @heeded r e rest running events concerns =>
      cases h with
      | givenUp expired concluded ends =>
          refine .givenUp_concat expired concluded ends ?_
          by_contra hexpiry
          have hn : r.number = n := number_of_isExpiryOf (x :=
            .heeded ⟨r, d.hub, e⟩) rfl (by simpa using hexpiry)
          exact hf.not_concluded_of_running running (hn ▸ concluded)
      | @waits r' running' number le activity =>
          obtain rfl : r' = r := Option.some.inj (running'.symm.trans running)
          exact .heeded hspares concerns number le activity
  | @started w rest idle waiting =>
      cases h with
      | givenUp expired concluded ends => exact .givenUp_concat expired concluded ends rfl
      | waits running number le activity =>
          rw [idle] at running
          cases running
  | cancelled running => cases hcancel

end Desk

/-! What is done when a queue works is taken apart once more, to see that a look at everything in which a
timer goes off brings one expiry. -/

section Work

open Deed

variable {s : Service} {h : Hub} {x : Deed}

namespace Running

variable {a : Attempt}

theorem deeds_message {r : Running} {k : Nat} (hr : r.activity = .command a k) {job : Option Nat}
    {header : Header} {m : Message} {rest : List Event} (hc : (Event.message job header m).Concerns r)
    (hspares : (Deed.heeded ⟨r, h, .message job header m⟩).Spares r.number) :
    r.deeds .commands (.message job header m :: rest) h =
      .heeded ⟨r, h, .message job header m⟩ :: r.deeds .commands rest h := by
  simp only [deeds, take_idle hr (hspares.minds_eq_false hr), deed, if_pos hc]

theorem deeds_stray {r : Running} {e : Event} {rest : List Event} (hc : ¬e.Concerns r) :
    r.deeds s (e :: rest) h = .dropped e :: r.deeds s rest h := by
  simp only [deeds, take_stray hc, deed, if_neg hc]

/-- While no expiry of its timer comes, the time of a command is not up. -/
theorem expiries_deeds_eq_zero (events : List Event) :
    ∀ (r : Running) (k : Nat), r.activity = .command a k →
      (∀ c, r.cookie = some c → .expiry r.number c ∉ events) →
      (∀ x ∈ r.deeds .commands events h, x.Spares r.number) →
        expiries r.number (r.deeds .commands events h) = 0 := by
  induction events with
  | nil => exact fun _ _ _ _ _ => rfl
  | cons e rest ih =>
      intro r k hr hnone hspares
      have hrest := fun c hc hmem => hnone c hc (List.mem_cons_of_mem _ hmem)
      by_cases hc : e.Concerns r
      · cases e with
        | message job header m =>
            have hhead : (Deed.heeded ⟨r, h, .message job header m⟩).Spares r.number := by
              refine hspares _ ?_
              rw [deeds, deed, if_pos hc]
              exact List.mem_cons_self
            rw [deeds_message hr hc hhead] at hspares ⊢
            exact ih r k hr hrest fun x hx => hspares x (List.mem_cons_of_mem _ hx)
        | expiry job c =>
            obtain ⟨rfl, hown⟩ := hc
            exact absurd List.mem_cons_self (hnone c hown)
      · rw [deeds_stray hc] at hspares ⊢
        exact ih r k hr hrest fun x hx => hspares x (List.mem_cons_of_mem _ hx)

/-- The expiry of its timer is taken in, and the new timer has not gone off. -/
theorem expiries_deeds_eq_one (events : List Event) :
    ∀ (r : Running) (k : Nat), r.activity = .command a k →
      (∃ c, r.cookie = some c ∧ .expiry r.number c ∈ events) →
      (∀ n c, .expiry n c ∈ events → c < h.timers.issued) →
        (∀ x ∈ r.deeds .commands events h, x.Spares r.number) →
        expiries r.number (r.deeds .commands events h) = 1 := by
  induction events with
  | nil =>
      intro r k _ hmem
      obtain ⟨c, _, hmem⟩ := hmem
      exact absurd hmem List.not_mem_nil
  | cons e rest ih =>
      intro r k hr hmem hissued hspares
      obtain ⟨c, hown, hmem⟩ := hmem
      have hissued' := fun n c hc => hissued n c (List.mem_cons_of_mem _ hc)
      by_cases hc : e.Concerns r
      · have hhead : (Deed.heeded ⟨r, h, e⟩).Spares r.number := by
          refine hspares _ ?_
          rw [deeds, deed, if_pos hc]
          exact List.mem_cons_self
        cases e with
        | message job header m =>
            have hlater : .expiry r.number c ∈ rest := by simpa using hmem
            rw [deeds_message hr hc hhead] at hspares ⊢
            exact ih r k hr ⟨c, hown, hlater⟩ hissued' fun x hx => hspares x (List.mem_cons_of_mem _ hx)
        | expiry job c' =>
            have hup : isExpiryOf r.number (.heeded ⟨r, h, .expiry job c'⟩) = true := decide_eq_true rfl
            have hp := take_pursues hr h hc
            rw [deeds, deed, if_pos hc] at hspares ⊢
            rw [expiries, List.countP_cons_of_pos hup, ← expiries, Nat.add_eq_right]
            have htail := fun x hx => hspares x (List.mem_cons_of_mem _ hx)
            have hoffered := hhead.not_refused
            rw [shown_heeded] at hoffered
            generalize r.take .commands h (.expiry job c') = p at hp htail hoffered
            cases hp with
            | exhausted own ended silent =>
                rw [ended]
                refine expiries_quiet (fun x hx => ?_) _
                obtain ⟨e', _, rfl⟩ := List.mem_map.mp hx
                rfl
            | @repeated k' _ _ r' own taken running goesOn sends =>
                rw [running] at htail ⊢
                rw [← goesOn.number] at htail ⊢
                refine expiries_deeds_eq_zero rest r' k' goesOn.activity (fun c'' hc'' hmem'' => ?_) htail
                -- an expiry of the new timer cannot be waiting yet
                rw [goesOn.cookie, Option.some.injEq] at hc''
                exact absurd (hissued' _ _ hmem'') (hc'' ▸ Nat.lt_irrefl _)
            | refused own refused ended offers =>
                rw [offers] at hoffered
                exact absurd (List.mem_singleton_self _) (hoffered _)
      · have hlater : .expiry r.number c ∈ rest := by
          rcases List.mem_cons.mp hmem with rfl | hlater
          · exact absurd ⟨rfl, hown⟩ hc
          · exact hlater
        rw [deeds_stray hc] at hspares ⊢
        exact ih r k hr ⟨c, hown, hlater⟩ hissued' fun x hx => hspares x (List.mem_cons_of_mem _ hx)

end Running

/-- What the starts of other commands add behind the end of one does not matter. -/
theorem JobQueue.expiries_deeds {q : JobQueue} {r : Running} (hr : q.running = some r) (n : Nat) :
    expiries n (q.deeds s h) = expiries n (r.deeds s q.events h) := by
  obtain ⟨late, heq, hlate⟩ := JobQueue.deeds_of_running (s := s) (h := h) hr
  rw [heq, expiries_append, Nat.add_eq_left, expiries, List.countP_eq_zero]
  intro x hx
  obtain ⟨w, h', rfl⟩ := hlate x hx
  exact Bool.false_ne_true

theorem JobQueue.mem_deeds {q : JobQueue} {r : Running} (hr : q.running = some r)
    (hx : x ∈ r.deeds s q.events h) :
    x ∈ q.deeds s h := by
  obtain ⟨late, heq, _⟩ := JobQueue.deeds_of_running (s := s) (h := h) hr
  exact heq ▸ List.mem_append_left _ hx

theorem JobQueue.expiries_news (q q' : JobQueue) (n : Nat) : expiries n (q.news q') = 0 := by
  refine expiries_quiet (fun x hx => ?_) n
  obtain ⟨e, rfl⟩ := JobQueue.posted_of_mem_news hx
  rfl

end Work

namespace Engine

open Deed

variable {e : Engine} {effects : List Effect} {asked : Service → List Task} {r : Running}
    {a : Attempt} {k : Nat}

/-- A look at everything after the timer of a command has run out brings one expiry, if the command hears no
answer that counts and is not refused. -/
theorem expiries_tick (hs : (e.desk effects asked).Sound) (hr : e.commands.running = some r)
    (ha : r.activity = .command a k)
    (hdue : ∃ x ∈ e.hub.timers.armed, x.tag = r.ticket .commands ∧ x.deadline ≤ e.hub.clock)
    (hspares : ∀ x ∈ e.deeds .commands .tick, x.Spares r.number) :
    expiries r.number (e.deeds .commands .tick) = 1 := by
  have hfires := e.fires_fireTimers effects asked
  have hs' := hs.fires hfires
  obtain ⟨_, harmed, hclock, hqueue⟩ := Desk.Fires.around hfires
  have hr' : (e.fireTimers.queue .commands).running = some r := (hqueue .commands).1.trans hr
  obtain ⟨x, hx, htag, hdeadline⟩ := hdue
  obtain ⟨c, hcookie, hawaited⟩ := hs'.tended.awaited .commands r hr'
  -- the timer that ran out has gone off, and it is the command's only one
  have hexpired : .expiry r.number c ∈ (e.fireTimers.queue .commands).events := by
    refine hawaited.resolve_left ?_
    rintro ⟨y, hy, rfl, hytag⟩
    obtain ⟨r', hrunning, _, hown⟩ := hs.tended.owned x hx
    rw [htag] at hrunning
    obtain rfl : r = r' := Option.some.inj (hr.symm.trans hrunning)
    have hsame : y = x := hs.tended.eq_of_cookie (harmed hy) hx (Option.some.inj (hcookie.symm.trans hown))
    refine e.fireTimers_late hs y hy ?_
    rw [hsame]
    exact hclock ▸ hdeadline
  have hdeeds : e.deeds .commands .tick = (e.queue .commands).news (e.fireTimers.queue .commands) ++
      (e.fireTimers.queue .commands).deeds .commands e.fireTimers.hub := rfl
  rw [hdeeds, expiries_append, JobQueue.expiries_news, Nat.zero_add, JobQueue.expiries_deeds hr']
  refine Running.expiries_deeds_eq_one _ r k ha ⟨c, hcookie, hexpired⟩
    (fun n c he => (hs'.tended.fired _ _ _ he).1)
    fun x hx => hspares x ?_
  rw [hdeeds]
  exact List.mem_append_right _ (JobQueue.mem_deeds hr' hx)

section Runs

variable (config : Config) (link : Link) (clock : Instant) (inputs : List Input)

/-- The time of a command is up once more in a look at everything when its timer has run out. -/
theorem expiries_look {inputs before : List Input} {n : Nat}
    (hdue : ∃ x ∈ (((idle config link clock).run inputs).engine.run before).engine.hub.timers.armed,
      x.tag = ⟨.commands, n⟩ ∧ x.deadline ≤
        (((idle config link clock).run inputs).engine.run before).engine.hub.clock)
    (hspares : ∀ x ∈ ((idle config link clock).run inputs).engine.log .commands (before ++ [.tick]),
      x.Spares n) :
    expiries n (((idle config link clock).run inputs).engine.log .commands (before ++ [.tick])) =
      expiries n (((idle config link clock).run inputs).engine.log .commands before) + 1 := by
  have hs := sound_run config link clock (inputs ++ before)
  have hc := commanding_run config link clock (inputs ++ before)
  rw [deskAfter_append] at hs hc
  rw [log_append] at hspares ⊢
  generalize (((idle config link clock).run inputs).engine.run before).engine = e at hdue hspares hs hc ⊢
  have hlog : e.log .commands [.tick] = e.deeds .commands .tick := by rw [log, log, List.append_nil]
  obtain ⟨x, hx, htag, hdeadline⟩ := hdue
  obtain ⟨r, hr, hnumber, _⟩ := hs.tended.owned x hx
  rw [htag] at hr hnumber
  obtain rfl : r.number = n := hnumber
  obtain ⟨a, k, ha⟩ := hc.activity hs hr
  rw [hlog] at hspares ⊢
  rw [expiries_append, expiries_tick hs hr ha ⟨x, hx, htag, hdeadline⟩ fun y hy =>
    hspares y (List.mem_append_right _ hy)]

/-- How it goes on with a command that has so many retries left while no answer to it counts and none of its
messages is refused. -/
structure Outlives (e : Engine) (n k : Nat) (more : List Input) : Prop where
  /-- Its time is up once more than it has retries left, and not more often. -/
  le : expiries n (e.log .commands more) ≤ k + 1
  /-- Until then it is under way, with one retry less each time. -/
  waits : expiries n (e.log .commands more) ≤ k → ∃ r a, (e.run more).engine.commands.running = some r ∧
    r.number = n ∧ r.activity = .command a (k - expiries n (e.log .commands more))
  givenUp : expiries n (e.log .commands more) = k + 1 ↔
    .result ⟨.commands, n⟩ (.commandFailed .timeout) ∈ (e.run more).effects
  /-- Its time is up in a look at everything when its timer has run out. -/
  looks : ∀ before, more = before ++ [.tick] →
    (∃ x ∈ (e.run before).engine.hub.timers.armed, x.tag = ⟨.commands, n⟩ ∧
      x.deadline ≤ (e.run before).engine.hub.clock) →
        expiries n (e.log .commands more) = expiries n (e.log .commands before) + 1

section Outlives

variable {inputs} {more : List Input} {j : Running} {a : Attempt} {k : Nat}
  (hj : ((idle config link clock).run inputs).engine.commands.running = some j)
  (ha : j.activity = .command a k)
  (hspares : ∀ x ∈ ((idle config link clock).run inputs).engine.log .commands more, x.Spares j.number)

include hj ha hspares

theorem outlasts_run :
    Desk.Outlasts j.number a k ((idle config link clock).deskAfter (inputs ++ more))
      ((idle config link clock).log .commands inputs)
      (((idle config link clock).run inputs).engine.log .commands more) := by
  have hlogged := keeps_log_more config link clock (s := .commands)
    (P := fun d past => (∀ x ∈ past, x.Spares j.number ∧ x.isCancelled = false) →
      Desk.Outlasts j.number a k d ((idle config link clock).log .commands inputs) past)
    (fun i d past h hall => List.append_nil past ▸ (h hall).quiet
      (fun x hx => absurd hx List.not_mem_nil) rfl)
    (fun i d d' deeds past hs hf h hact hall => by
      have hold := h fun x hx => hall x (List.mem_append_left _ hx)
      rcases hact.plays_or_quiet with ⟨x, rfl, hplays⟩ | ⟨hquiet, hrunning⟩
      · obtain ⟨hspare, hcancel⟩ := hall x (List.mem_append_right _ (List.mem_singleton_self x))
        exact hold.plays hf hplays hspare hcancel
      · exact hold.quiet hquiet hrunning)
    (fun i t d d' deeds past ht hs h hact hall => List.append_nil past ▸
      (h hall).quiet (fun x hx => absurd hx List.not_mem_nil) (by rw [(hact.aside ht).queue]))
    (fun _ => .waits hj rfl (Nat.zero_le k) ha) more
  exact hlogged fun x hx => ⟨hspares x hx, isCancelled_log more _ x hx⟩

theorem outlives_run : ((idle config link clock).run inputs).engine.Outlives j.number k more := by
  have hout := outlasts_run config link clock hj ha hspares
  have hended := endings_run_more config link clock .commands inputs more
  refine ⟨?_, fun hle => ?_, ⟨fun hexpired => ?_, fun hresult => ?_⟩, ?_⟩
  · cases hout with
    | waits running number le activity => omega
    | givenUp expired concluded ends => omega
  · cases hout with
    | @waits r running number le activity =>
        rw [deskAfter_append] at running
        exact ⟨r, a, running, number, activity⟩
    | givenUp expired concluded ends => omega
  · cases hout with
    | waits running number le activity => omega
    | givenUp expired concluded ends =>
        rw [← hended] at ends
        obtain ⟨x, hx, hend⟩ := List.mem_filterMap.mp ends
        rwa [← Effect.eq_result_of_ended? hend]
  · cases hout with
    | @waits r running number le activity =>
        -- it is not told how a job under way ended
        have hsound := sound_run config link clock (inputs ++ more)
        have hstanding : 0 < ((idle config link clock).deskAfter (inputs ++ more)).standing
            ⟨.commands, j.number⟩ :=
          List.countP_pos_iff.mpr ⟨r.slot, JobQueue.slot_mem_line running, decide_eq_true number⟩
        have htold := hsound.accounted.told_eq_zero (.inl hstanding)
        rw [deskAfter_append] at htold
        have hnot := List.countP_eq_zero.mp htold _ (List.mem_append_right _ hresult)
        simp at hnot
    | givenUp expired concluded ends => exact expired
  · rintro before rfl hdue
    exact expiries_look config link clock hdue hspares

end Outlives

end Runs

/-- In every run a command is sent at most once more than it has retries, each time as a message for the
autopilot that the link reports at that moment. All that is seen of commands is seen in the steps of the log,
and so is how they end. What a command has sent, how often the time of a timer it took was up and the retries
it has left are in balance while it is under way, and no message it hears changes them. So it is given up only
when its time is up after the last; and from any moment on, if no answer to it counts any more and the link
refuses none of its messages, it is given up when its time is up once more than it has retries left. -/
theorem run_keeps_budget (config : Config) (link : Link) (clock : Instant) (inputs : List Input) :
    let e := idle config link clock
    let r := e.run inputs
    let log := e.log .commands inputs
    let budget := config.commandRetries.toNat
    r.effects.filter (Effect.isOf .commands) = log.flatMap (shown .commands) ∧
      r.endings .commands = log.filterMap (ends? .commands) ∧
      (∀ n, r.effects.countP (Effect.transmits n) ≤ budget + 1) ∧
      (∀ x ∈ log, ∀ t m, .sent t m ∈ x.shown .commands →
        ∃ h a, x.actor? = some (t.number, h) ∧ (submitted inputs .commands)[t.number]? = some (.command a) ∧
          m = a.request.message h.link.autopilot) ∧
      Each (fun past x => ∀ n, x.ends? .commands = some ⟨n, .commandFailed .timeout⟩ →
        transmissions n past = budget + 1 ∧ expiries n (past ++ [x]) = budget + 1) log ∧
      Each (fun past x => ∀ t n c, x = .heeded t → t.event = .expiry n c →
        n = t.job.number ∧ t.job.cookie = some c ∧ Armed .commands past n c) log ∧
      (∀ t job header m, .heeded t ∈ log → t.event = .message job header m →
        (∀ y ∈ (t.job.take .commands t.hub t.event).effects, ∃ f, y = .progress (t.job.ticket .commands) f) ∧
          ∀ j, (t.job.take .commands t.hub t.event).standing = .running j → j.activity = t.job.activity) ∧
      ∀ j a k, r.engine.commands.running = some j → j.activity = .command a k →
        (transmissions j.number log + k = budget + 1 ∧
          expiries j.number log + 1 = transmissions j.number log) ∧
          ∀ more, (∀ x ∈ r.engine.log .commands more, x.Spares j.number) →
            r.engine.Outlives j.number k more := by
  intro e r log budget
  have hb := budgeted_run config link clock inputs
  refine ⟨(filed_run config link clock .commands inputs).seen, endings_run config link clock .commands inputs,
    fun n => ?_, fun x hx t m hsent => message_of_sent config link clock inputs hx hsent, hb.spent,
    fun past x rest heq t n c =>
      ((fresh_run config link clock .commands inputs).apt past x rest heq).expires t n c,
    fun t job header m ht hm => retries_of_heard config link clock inputs ht hm, fun j a k hj ha =>
      ⟨hb.running j a k hj ha, fun more hspares => outlives_run config link clock hj ha hspares⟩⟩
  rw [countP_transmits]
  exact hb.bounded n

/-- A command with three retries that nobody answers: its time is up four times, and it is given up. -/
theorem run_keeps_budget_unanswered :
    let e := idle .default default 0
    let inputs : List Input := [.command ⟨.long (.arm 1 true), true⟩, .tick]
    let more : List Input := (List.replicate 4 [.advance 1500000, .tick]).flatten
    let r := e.run inputs
    let log := r.engine.log .commands more
    r.engine.commands.running.map (fun j => (j.number, j.activity)) =
        some (0, .command ⟨.long (.arm 1 true), true⟩ 3) ∧
      (∀ x ∈ log, x.Spares 0) ∧ expiries 0 log = 4 ∧
        .result ⟨.commands, 0⟩ (.commandFailed .timeout) ∈ (r.engine.run more).effects := by
  intro e inputs more r log
  have hrunning : r.engine.commands.running.map (fun j => (j.number, j.activity)) =
      some (0, .command ⟨.long (.arm 1 true), true⟩ 3) := by decide +kernel
  have hspares : ∀ x ∈ log, x.Spares 0 := by decide +kernel
  have hexpiries : expiries 0 log = 4 := by decide +kernel
  obtain ⟨j, hj, hkey⟩ := Option.map_eq_some_iff.mp hrunning
  obtain ⟨hnumber, ha⟩ := Prod.mk.inj hkey
  have hall := (run_keeps_budget .default default 0 inputs).2.2.2.2.2.2.2 j _ _ hj ha
  have houtlives := hall.2 more (hnumber ▸ hspares)
  rw [hnumber] at houtlives
  exact ⟨hrunning, hspares, hexpiries, houtlives.givenUp.mp hexpiries⟩

end Engine

end GroundLink
