import GroundLink.Proofs.CommandSteps

/-! The patience of commands. A command is given time by each of its transmissions, and by each answer that
tells that it is in progress. While the clock does not go back, it is neither sent again nor given up before
that time is over (`Engine.waits_before_pressing`), also if its timer had gone off already when the answer was
taken in: then the expiry that is behind the answer is that of a timer which is not the command's any more. -/

namespace GroundLink

open Function

namespace Deed

/-- Whether a message goes out. -/
def Transmits (x : Deed) : Prop := ∃ t m, .sent t m ∈ x.shown .commands

/-- Whether a command is told that it is in progress, with so many retries left. -/
def Prolongs (k : Nat) : Deed → Prop
  | heeded ⟨r, h, .message _ _ m⟩ => ∃ a, r.activity = .command a k ∧ a.isProgress h.link.own m = true
  | _ => False

/-- Whether a message is offered to the link, or a command ends because its time is up. -/
def Presses (x : Deed) : Prop :=
  (∃ t m, .sent t m ∈ x.shown .commands ∨ .refused t m ∈ x.shown .commands) ∨
    ∃ n, x.ends? .commands = some ⟨n, .commandFailed .timeout⟩

/-- Whether a command is given time, and until when. -/
inductive Grants (timeout : Span) (x : Deed) (n : Nat) : Nat → Prop
  | sent {h : Hub} (actor : x.actor? = some (n, h)) (transmits : x.Transmits) :
      Grants timeout x n (h.clock.after timeout).toNat
  | prolonged {h : Hub} {k : Nat} (actor : x.actor? = some (n, h)) (prolongs : x.Prolongs k) :
      Grants timeout x n (h.clock.after (timeout.times (max 1 k))).toNat

theorem Grants.actor {timeout : Span} {x : Deed} {n due : Nat} (hg : x.Grants timeout n due) :
    ∃ h, x.actor? = some (n, h) := by
  cases hg with
  | sent actor transmits => exact ⟨_, actor⟩
  | prolonged actor prolongs => exact ⟨_, actor⟩

/-- Of the steps of a command under way only those press it in which its time is up. -/
theorem expiry_of_presses {r : Running} {h : Hub} {e : Event} {a : Attempt} {k : Nat}
    (hr : r.activity = .command a k) (hc : e.Concerns r) (hp : (heeded ⟨r, h, e⟩).Presses) :
    ∃ c, e = .expiry r.number c ∧ r.cookie = some c := by
  have hpursues := Running.take_pursues hr h hc
  have hpressed : (∃ t m, .sent t m ∈ (r.take .commands h e).effects ∨
      .refused t m ∈ (r.take .commands h e).effects) ∨
      ∃ n, (r.take .commands h e).standing.ended? = some ⟨n, .commandFailed .timeout⟩ := by
    rwa [Presses, shown_heeded, ends?_of_progress? rfl] at hp
  generalize r.take .commands h e = p at hpursues hpressed
  cases hpursues with
  | ignored idle =>
      rcases hpressed with ⟨t, m, hs | hs⟩ | ⟨n, hn⟩
      · cases hs
      · cases hs
      · cases hn
  | settled minded idle ended notTimeout silent =>
      rw [silent, ended] at hpressed
      rcases hpressed with ⟨t, m, hs | hs⟩ | ⟨n, hn⟩
      · cases hs
      · cases hs
      · cases hn
        exact absurd rfl notTimeout
  | prolonged progress running goesOn reports =>
      rcases hpressed with ⟨t, m, hs | hs⟩ | ⟨n, hn⟩
      · obtain ⟨f, hf⟩ := reports _ hs
        cases hf
      · obtain ⟨f, hf⟩ := reports _ hs
        cases hf
      · rw [running] at hn
        cases hn
  | exhausted own ended silent => exact ⟨_, rfl, own⟩
  | repeated own taken running goesOn sends => exact ⟨_, rfl, own⟩
  | refused own refused ended offers => exact ⟨_, rfl, own⟩

end Deed

namespace Desk

variable {i : Input} {d d' : Desk} {s : Service} {q : JobQueue} {r : Running} {h : Hub} {move : Move Activity}
  {timeout : Span} {n k due : Nat} {x : Deed} {deeds : List Deed}

/-- Whether a command with so many retries left is not pressed before `due`. -/
structure Forbears (d : Desk) (timeout : Span) (n k due : Nat) : Prop where
  size : due < UInt64.size
  spared : Spared d (timeout.times (max 1 k)) ⟨.commands, n⟩ due
  retries : d.hub.clock.toNat < due → ∀ r, (d.queue .commands).running = some r → r.number = n →
    ∃ a, r.activity = .command a k

/-- The steps of such a command take no timer that is too short. -/
theorem Forbears.ample (hf : Forbears d timeout n k due) (hd : Poised d timeout) (hdue : Due d s q r h move)
    (hearly : d.hub.clock.toNat < due) (ht : r.ticket s = ⟨.commands, n⟩) :
    move.Ample (timeout.times (max 1 k)) := by
  obtain ⟨rfl, hn⟩ := Ticket.mk.inj ht
  cases hdue with
  | @hear r job header m rest running events concerns =>
      obtain ⟨a, ha⟩ := hf.retries hearly r running hn
      rw [ha]
      refine (Move.ample_map _ _ _).mpr ?_
      have hears := a.hears_onMessage (d.hub.policy .commands) d.hub.link.own k m
      change (a.onMessage (d.hub.policy .commands) d.hub.link.own k m).Ample _
      generalize a.onMessage (d.hub.policy .commands) d.hub.link.own k m = move at hears ⊢
      cases hears with
      | ignored idle => trivial
      | settled minded idle notTimeout => trivial
      | prolonged report progress =>
          have hpolicy : (d.hub.policy .commands).timeout = timeout := hd.policy
          rw [hpolicy]
          exact Nat.le_refl _
  | @expire r cookie rest running events own =>
      refine absurd ?_ (hf.spared.silent hearly r cookie running hn own)
      show _ ∈ (d.queue .commands).events
      rw [events]
      exact List.mem_cons_self
  | @start w rest idle waiting =>
      refine absurd hn (hf.spared.begun.2 w ?_)
      show w ∈ (d.queue .commands).waiting.items
      rw [waiting]
      exact List.mem_cons_self
  | cancel running => trivial

theorem Forbears.act (hf : Forbears d timeout n k due) (hd : Poised d timeout) (hact : Act i s d deeds d') :
    Forbears d' timeout n k due := by
  refine ⟨hf.size, hf.spared.step hd.sound hd.punctual hf.size hact.step fun hdue => hf.ample hd hdue, ?_⟩
  rw [hact.step.clock]
  intro hearly r' hr' hn
  by_cases hs : s = .commands
  · subst hs
    cases hact.leaves hr' with
    | kept running => exact hf.retries hearly r' running hn
    | @taken r e rest running events concerns goesOn =>
        have hnumber : r.number = n := by
          rw [← hn]
          exact (congrArg Ticket.number (Running.take_ticket e goesOn)).symm
        obtain ⟨a, ha⟩ := hf.retries hearly r running hnumber
        have hp := Running.take_pursues ha d.hub concerns
        generalize r.take .commands d.hub e = p at hp goesOn
        cases hp with
        | ignored idle =>
            cases goesOn
            exact ⟨a, ha⟩
        | prolonged progress running' kept reports =>
            rw [running'] at goesOn
            cases goesOn
            exact ⟨a, kept.activity⟩
        | repeated own taken running' kept sends =>
            refine absurd ?_ (hf.spared.silent hearly r _ running hnumber own)
            show _ ∈ (d.queue .commands).events
            rw [events]
            exact List.mem_cons_self
        | settled minded idle ended notTimeout silent => rw [ended] at goesOn; cases goesOn
        | exhausted own ended silent => rw [ended] at goesOn; cases goesOn
        | refused own refused ended offers => rw [ended] at goesOn; cases goesOn
    | @started w rest idle waiting opens =>
        have hf' :=
          (w.opening (d.hub.setting .commands)).follow_follows .commands (w.subscribe .commands d.hub)
            (w.task.start (d.hub.setting .commands))
        have hnumber : r'.number = w.number := (hf'.running opens).1
        refine absurd (hnumber.symm.trans hn) (hf.spared.begun.2 w ?_)
        show w ∈ (d.queue .commands).waiting.items
        rw [waiting]
        exact List.mem_cons_self
  · rw [(hact.aside hs).queue] at hr'
    exact hf.retries hearly r' hr' hn

/-- No timer of the queue but the new one is armed after a step that takes one. -/
theorem Due.deadline_of_restart (ht : Tended d.hub.timers d.queue) {span : Span} {report : Option Fraction}
    {message : Option Message} {b : Activity}
    (hdue : Due d s q r h (.proceed (.restart span) report message b)) {y : Timer Ticket}
    (hy : y ∈ (h.await (r.ticket s) r.cookie (.restart span)).2.timers.armed) (hs : y.tag.service = s) :
    y.deadline = d.hub.clock.after span := by
  rcases List.mem_append.mp hy with hold | hnew
  · have hnone := (hdue.freed ht).filter_idle (s := s) (by rw [update_self]; rfl)
    exact absurd (decide_eq_true hs) (List.filter_eq_nil_iff.mp hnone y hold)
  · rw [List.mem_singleton.mp hnew, ← hdue.clock]
    cases r.cookie <;> rfl

/-- A step that takes a new timer for a command gives it time. -/
theorem Poised.forbears (hd : Poised d timeout) {span : Span} {report : Option Fraction}
    {message : Option Message} {a : Attempt}
    (hdue : Due d .commands q r h (.proceed (.restart span) report message (.command a k)))
    (hspan : span.micros ≤ (timeout.times (max 1 k)).micros) {r' : Running}
    (hr : (r.follow .commands h (.proceed (.restart span) report message (.command a k))).standing =
      .running r') :
    Forbears
      (d.after .commands q (r.follow .commands h (.proceed (.restart span) report message (.command a k))))
      timeout r.number k (d.hub.clock.after span).toNat := by
  have hf := r.follow_follows .commands h (.proceed (.restart span) report message (.command a k))
  generalize r.follow .commands h (.proceed (.restart span) report message (.command a k)) = p at hf hr
  have hclock : (d.after .commands q p).hub.clock = d.hub.clock := hf.clock.trans hdue.clock
  have hqueue : (d.after .commands q p).queue .commands = q.withRunning p.standing.running? := by simp [after]
  cases hf with
  | broken wait report m activity refused => cases hr
  | waited wait report message activity taken =>
      refine ⟨UInt64.toNat_lt_size _,
        ⟨?_, ⟨?_, fun w hw => ?_⟩, fun x hx htag => ?_, fun _ r₁ c hr₁ hn hc he => ?_⟩, fun _ r₁ hr₁ hn => ?_⟩
      · rw [hclock]
        exact (Hub.after_le _ _).trans (Nat.add_le_add_left hspan _)
      · rw [hdue.submitted_after]
        exact hd.sound.lined.number_lt hdue.mem_line
      · change w ∈ ((d.after .commands q _).queue .commands).waiting.items at hw
        rw [hqueue] at hw
        exact hd.sound.lined.number_ne hdue.line hw
      · refine Nat.le_of_eq ?_
        change x ∈
          (((h.await (r.ticket .commands) r.cookie (.restart span)).2.offered message).timers).armed at hx
        rw [Hub.offered_timers] at hx
        rw [hdue.deadline_of_restart hd.sound.tended hx (congrArg Ticket.service htag)]
      · change ((d.after .commands q _).queue .commands).running = some r₁ at hr₁
        change _ ∈ ((d.after .commands q _).queue .commands).events at he
        rw [hqueue] at hr₁ he
        cases hr₁
        -- no expiry of a timer that is only now armed can be waiting
        have hfresh : c = d.hub.timers.issued := by
          rw [← hdue.timers]
          cases hcookie : r.cookie <;>
            simp [hcookie, Hub.await, Hub.disarm, Timers.fresh, Timers.remove] at hc <;>
            exact hc.symm
        have hold : .expiry r.number c ∈ (d.queue .commands).events := hdue.events_subset he
        exact absurd (hd.sound.tended.fired _ _ _ hold).1 (hfresh ▸ Nat.lt_irrefl _)
      · change ((d.after .commands q _).queue .commands).running = some r₁ at hr₁
        rw [hqueue] at hr₁
        cases hr₁
        exact ⟨a, rfl⟩

section Forbears

variable {a : Attempt}

theorem micros_le_patience (timeout : Span) (k : Nat) : timeout.micros ≤ (timeout.times (max 1 k)).micros :=
  Span.micros_le_times _ (Nat.lt_of_lt_of_le Nat.zero_lt_one (Nat.le_max_left _ _))

theorem Poised.forbears_started (hd : Poised d timeout) {w : Waiting} {rest : List Waiting}
    (idle : (d.queue .commands).running = none) (waiting : (d.queue .commands).waiting.items = w :: rest)
    (hw : w.task = .command a)
    (haccepts : d.hub.link.accepts (a.request.message d.hub.link.autopilot) = true) :
    Forbears (d.after .commands ((d.queue .commands).withWaiting rest) (w.start .commands d.hub))
      timeout w.number
      d.hub.commandRetries (d.hub.clock.after timeout).toNat := by
  have hdue := Due.start idle waiting
  have hmove : w.task.start (d.hub.setting .commands) = .proceed (.restart timeout) none
      (some (a.request.message d.hub.link.autopilot)) (.command a d.hub.commandRetries) := by
    rw [hw, ← hd.policy]
    rfl
  rw [hmove] at hdue
  have hstart : w.start .commands d.hub = (w.opening (d.hub.setting .commands)).follow .commands
      (w.subscribe .commands d.hub) (w.task.start (d.hub.setting .commands)) := rfl
  rw [hstart, hmove]
  obtain ⟨r', hrunning, _, _⟩ := Running.goesOn_follow (w.opening (d.hub.setting .commands)) .commands
    (w.subscribe .commands d.hub) timeout none (some (a.request.message d.hub.link.autopilot))
    (.command a d.hub.commandRetries) (fun m hm => Option.mem_some.mp hm ▸ haccepts)
  exact hd.forbears hdue (micros_le_patience _ _) hrunning

theorem Poised.forbears_repeated (hd : Poised d timeout) {c : Cookie} {rest : List Event}
    (running : (d.queue .commands).running = some r)
    (events : (d.queue .commands).events = .expiry r.number c :: rest) (own : r.cookie = some c)
    (hr : r.activity = .command a (k + 1))
    (haccepts : d.hub.link.accepts (a.request.message d.hub.link.autopilot) = true) :
    Forbears (d.after .commands ((d.queue .commands).withEvents rest)
      (r.take .commands d.hub (.expiry r.number c)))
      timeout r.number k (d.hub.clock.after timeout).toNat := by
  have hdue := Due.expire running events own
  have hmove : r.activity.onTimeout (d.hub.setting .commands) = .proceed (.restart timeout) none
      (some (a.request.message d.hub.link.autopilot)) (.command a k) := by
    rw [hr, ← hd.policy]
    rfl
  rw [hmove] at hdue
  rw [Running.take_expired own, hmove]
  obtain ⟨r', hrunning, _, _⟩ := Running.goesOn_follow { r with cookie := none } .commands d.hub timeout none
    (some (a.request.message d.hub.link.autopilot)) (.command a k)
    (fun m hm => Option.mem_some.mp hm ▸ haccepts)
  exact hd.forbears hdue (micros_le_patience _ _) hrunning

theorem Poised.forbears_prolonged (hd : Poised d timeout) {job : Option Nat} {header : Header} {m : Message}
    {rest : List Event} (running : (d.queue .commands).running = some r)
    (events : (d.queue .commands).events = .message job header m :: rest)
    (concerns : job = none ∨ job = some r.number) (hr : r.activity = .command a k)
    (hprogress : a.isProgress d.hub.link.own m = true) :
    Forbears (d.after .commands ((d.queue .commands).withEvents rest)
        (r.take .commands d.hub (.message job header m)))
      timeout r.number k (d.hub.clock.after (timeout.times (max 1 k))).toNat := by
  have hdue := Due.hear running events concerns
  obtain ⟨report, hmove⟩ : ∃ report, r.activity.onMessage (d.hub.setting .commands) header.sender m =
      .proceed (.restart (timeout.times (max 1 k))) report none (.command a k) := by
    have hears := a.hears_onMessage (d.hub.policy .commands) d.hub.link.own k m
    have honly : ∃ report, a.onMessage (d.hub.policy .commands) d.hub.link.own k m =
        .proceed (.restart (timeout.times (max 1 k))) report none k := by
      generalize a.onMessage (d.hub.policy .commands) d.hub.link.own k m = move at hears
      cases hears with
      | ignored idle => rw [Attempt.minds_of_isProgress hprogress] at idle; cases idle
      | settled minded idle notTimeout => rw [hprogress] at idle; cases idle
      | prolonged report progress => exact ⟨report, by rw [← hd.policy]; rfl⟩
    obtain ⟨report, honly⟩ := honly
    refine ⟨report, ?_⟩
    rw [hr]
    exact congrArg (Move.map (Activity.command a)) honly
  rw [hmove] at hdue
  rw [Running.take_heard concerns, hmove]
  obtain ⟨r', hrunning, _, _⟩ := Running.goesOn_follow r .commands d.hub (timeout.times (max 1 k)) report none
    (.command a k) nofun
  exact hd.forbears hdue (Nat.le_refl _) hrunning

/-- A command that is given time in a step is not pressed before that time is over. -/
theorem Poised.forbears_of_grants (hd : Poised d timeout) (hc : Commanding d)
    (hact : Act i .commands d deeds d') (hx : x ∈ deeds) (hg : x.Grants timeout n due) :
    ∃ k, Forbears d' timeout n k due := by
  obtain ⟨_, ha⟩ := hg.actor
  cases hact.plays hx ha with
  | @heeded r e rest running events concerns =>
      obtain ⟨a, k, hr⟩ := hc.activity hd.sound running
      cases hg with
      | sent actor transmits =>
          cases actor
          obtain ⟨t, m, hsent⟩ := transmits
          rw [Deed.shown_heeded] at hsent
          obtain ⟨c, k, rfl, own, hr, haccepts, _, _⟩ := Running.repeats_of_sent hr concerns hsent
          exact ⟨k, hd.forbears_repeated running events own hr haccepts⟩
      | @prolonged h k' actor prolongs =>
          cases actor
          cases e with
          | expiry job cookie => exact prolongs.elim
          | message job header m =>
              obtain ⟨_, hr, hprogress⟩ := prolongs
              exact ⟨k', hd.forbears_prolonged running events concerns hr hprogress⟩
  | @started w rest idle waiting =>
      cases hg with
      | sent actor transmits =>
          cases actor
          obtain ⟨a, ha⟩ :=
            hc.task hd.sound ((d.queue .commands).waiting_subset_line (waiting ▸ List.mem_cons_self))
          refine ⟨_, hd.forbears_started idle waiting ha ?_⟩
          cases Waiting.start_opens ha d.hub with
          | sent taken running number activity sends => exact taken
          | refused refused ended offers =>
              obtain ⟨t, m, hsent⟩ := transmits
              rw [Deed.shown_started, offers] at hsent
              cases List.mem_singleton.mp hsent
      | prolonged actor prolongs => exact prolongs.elim
  | @cancelled r running =>
      cases hg with
      | sent actor transmits =>
          obtain ⟨a, k, hr⟩ := hc.activity hd.sound running
          obtain ⟨t, m, hsent⟩ := transmits
          rw [Deed.shown_cancelled, (Running.cancel_command hr _ _).2] at hsent
          cases hsent
      | prolonged actor prolongs => exact prolongs.elim

/-- A command that is pressed is so when it starts, or when its time is up. -/
theorem Forbears.le_clock (hf : Forbears d timeout n k due) (hs : d.Sound) (hc : Commanding d)
    (hact : Act i .commands d deeds d') (hx : x ∈ deeds) {h : Hub} (ha : x.actor? = some (n, h))
    (hp : x.Presses) :
    due ≤ h.clock.toNat := by
  refine Nat.le_of_not_lt fun hearly => ?_
  cases hact.plays hx ha with
  | @heeded r e rest running events concerns =>
      cases ha
      obtain ⟨a, k', hr⟩ := hc.activity hs running
      obtain ⟨c, rfl, own⟩ := Deed.expiry_of_presses hr concerns hp
      refine hf.spared.silent hearly r c running rfl own ?_
      show _ ∈ (d.queue .commands).events
      rw [events]
      exact List.mem_cons_self
  | @started w rest idle waiting =>
      cases ha
      refine hf.spared.begun.2 w ?_ rfl
      show w ∈ (d.queue .commands).waiting.items
      rw [waiting]
      exact List.mem_cons_self
  | @cancelled r running =>
      obtain ⟨a, k', hr⟩ := hc.activity hs running
      obtain ⟨hended, hsilent⟩ := Running.cancel_command hr .commands d.hub
      rcases hp with ⟨t, m, hsent | hrefused⟩ | ⟨_, hends⟩
      · rw [Deed.shown_cancelled, hsilent] at hsent
        cases hsent
      · rw [Deed.shown_cancelled, hsilent] at hrefused
        cases hrefused
      · rw [Deed.ends?_of_progress? rfl, hended] at hends
        cases hends

end Forbears

/-- What is so of the command queue and of its log: a command that was given time is not pressed before that
time is over, and was not so far. -/
structure Indulgent (timeout : Span) (d : Desk) (log : List Deed) : Prop where
  poised : Poised d timeout
  commanding : Commanding d
  forbears : ∀ x ∈ log, ∀ n due, x.Grants timeout n due → ∃ k, Forbears d timeout n k due
  waits : log.Pairwise fun x y => ∀ n due h, x.Grants timeout n due → y.actor? = some (n, h) → y.Presses →
    due ≤ h.clock.toNat

namespace Indulgent

variable {log : List Deed}

theorem under (hd : Indulgent timeout d log) (hle : d.hub.clock ≤ i.clock d.hub.clock) :
    Indulgent timeout (d.under i) log where
  poised := hd.poised.under hle
  commanding := hd.commanding
  forbears x hx n due hg := by
    obtain ⟨k, hf⟩ := hd.forbears x hx n due hg
    have hle := UInt64.le_iff_toNat_le.mp hle
    exact ⟨k, hf.size, hf.spared.under hle, fun hearly => hf.retries (Nat.lt_of_le_of_lt hle hearly)⟩
  waits := hd.waits

theorem act (hd : Indulgent timeout d log) (hact : Act i .commands d deeds d') :
    Indulgent timeout d' (log ++ deeds) where
  poised := hd.poised.step hact.step
  commanding := hd.commanding.act hact
  forbears x hx n due hg := by
    rcases List.mem_append.mp hx with hold | hnew
    · obtain ⟨k, hf⟩ := hd.forbears x hold n due hg
      exact ⟨k, hf.act hd.poised hact⟩
    · exact hd.poised.forbears_of_grants hd.commanding hact hnew hg
  waits := by
    refine List.pairwise_append.mpr ⟨hd.waits, ?_, fun x hx y hy n due h hg ha hp => ?_⟩
    · rcases hact.plays_or_quiet with ⟨x, rfl, _⟩ | ⟨hquiet, _⟩
      · exact List.pairwise_singleton _ _
      · refine List.pairwise_of_forall_mem_list fun x _ y hy n due h _ ha => ?_
        rw [hquiet y hy] at ha
        cases ha
    · obtain ⟨k, hf⟩ := hd.forbears x hx n due hg
      exact hf.le_clock hd.poised.sound hd.commanding hact hy ha hp

theorem other (hd : Indulgent timeout d log) (hs : s ≠ .commands) (hact : Act i s d deeds d') :
    Indulgent timeout d' log where
  poised := hd.poised.step hact.step
  commanding := hd.commanding.other hs hact
  forbears x hx n due hg := by
    obtain ⟨k, hf⟩ := hd.forbears x hx n due hg
    exact ⟨k, hf.act hd.poised hact⟩
  waits := hd.waits

end Indulgent

end Desk

namespace Engine

open Deed

/-- While the clock does not go back, a command that was sent is neither sent again nor given up before the
timeout is over, and one that was told to be in progress before the timeout is over once for each retry left,
or once if none is. All that is seen of commands is seen in the steps of the log, and so is how they end. -/
theorem waits_before_pressing (config : Config) (link : Link) (clock : Instant) (inputs : List Input)
    (hsteady : ClockSteady clock inputs) :
    let e := idle config link clock
    let r := e.run inputs
    let log := e.log .commands inputs
    let timeout := config.timeoutSpan
    r.effects.filter (Effect.isOf .commands) = log.flatMap (shown .commands) ∧
      r.endings .commands = log.filterMap (ends? .commands) ∧
      log.Pairwise fun x y => ∀ n h h', x.actor? = some (n, h) → y.actor? = some (n, h') → y.Presses →
        (x.Transmits → min (h.clock.toNat + timeout.micros) (2 ^ 64 - 1) ≤ h'.clock.toNat) ∧
        ∀ k, x.Prolongs k →
          min (h.clock.toNat + (timeout.times (max 1 k)).micros) (2 ^ 64 - 1) ≤ h'.clock.toNat := by
  intro e r log timeout
  have hidle : Desk.Indulgent timeout (e.desk [] fun _ => []) [] :=
    { poised := ⟨sound_idle config link clock, fun x hx => absurd hx List.not_mem_nil, rfl,
        fun x hx => absurd hx List.not_mem_nil⟩
      commanding := fun t ht => absurd ht List.not_mem_nil
      forbears := fun x hx => absurd hx List.not_mem_nil
      waits := .nil }
  have hrun := keeps_log_steady (s := .commands) (P := Desk.Indulgent timeout)
    (fun _ _ _ hle h => h.under hle) (fun _ _ _ _ _ _ h hact => h.act hact)
    (fun _ _ _ _ _ _ hts _ h hact => h.other hts hact) config link hsteady hidle
  refine ⟨(filed_run config link clock .commands inputs).seen, endings_run config link clock .commands inputs,
    hrun.waits.imp fun hwaits n h h' hx hy hp => ⟨fun ht => ?_, fun k hk => ?_⟩⟩
  · have hle := hwaits n _ h' (.sent hx ht) hy hp
    rwa [Instant.toNat_after] at hle
  · have hle := hwaits n _ h' (.prolonged hx hk) hy hp
    rwa [Instant.toNat_after] at hle

/-- A command is told to be in progress, with three retries left, in the look in which its timer goes off: the
expiry is behind the answer. The command is sent again after one and a half seconds more. -/
theorem waits_before_pressing_in_progress :
    let link : Link := { (default : Link) with own := Config.default.own }
    let answer : CommandAck := ⟨.componentArmDisarm, .inProgress, 10, 0, Config.default.own⟩
    let inputs : List Input := [.command ⟨.long (.arm 1 true), true⟩, .tick, .advance 500000,
      .receive ⟨.pilotOf 1, 0⟩ (.commandAck answer), .tick, .advance 1499999, .tick, .advance 1, .tick]
    let log := (idle .default link 0).log .commands inputs
    ClockSteady 0 inputs ∧
      log.filterMap posts? = [.message none ⟨.pilotOf 1, 0⟩ (.commandAck answer), .expiry 0 0, .expiry 0 1] ∧
      log.filterMap (fun x => x.actor?.map fun y => (y.1, y.2.clock, (x.shown .commands).map Effect.isSent)) =
        [(0, 0, [true]), (0, 500000, [false]), (0, 2000000, [true])] ∧
      log.Pairwise fun x y => ∀ n h h', x.actor? = some (n, h) → y.actor? = some (n, h') → y.Presses →
        (x.Transmits → min (h.clock.toNat + Config.default.timeoutSpan.micros) (2 ^ 64 - 1) ≤
          h'.clock.toNat) ∧
        ∀ k, x.Prolongs k →
          min (h.clock.toNat + (Config.default.timeoutSpan.times (max 1 k)).micros) (2 ^ 64 - 1) ≤
            h'.clock.toNat := by
  intro link answer inputs log
  have hsteady : ClockSteady 0 inputs := by
    refine ⟨?_, ?_, ?_, ?_, ?_, ?_, ?_, ?_, ?_, trivial⟩ <;> decide
  exact ⟨hsteady, by decide +kernel, by decide +kernel,
    (waits_before_pressing .default link 0 inputs hsteady).2.2⟩

end Engine

end GroundLink
