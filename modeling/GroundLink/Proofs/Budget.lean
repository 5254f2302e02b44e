import GroundLink.Proofs.CommandSteps

/-! What a command has sent, how often its time was up and how many retries it has left go together at every
moment (`Desk.Budgeted`), whatever answers come in meanwhile. So it is sent no more than once and once for
every retry, and is given up only when they are used up. -/

namespace GroundLink

open Function

/-- Whether something is sent for a command. -/
def Effect.transmits (n : Nat) (x : Effect) : Bool := x.isSent && x.job = ⟨.commands, n⟩

theorem Effect.eq_result_of_ended? {s : Service} {x : Effect} {n : Nat} {o : Outcome}
    (h : x.ended? s = some ⟨n, o⟩) :
    x = .result ⟨s, n⟩ o := by
  cases x with
  | result t o' =>
      rw [ended?, Option.ite_none_right_eq_some] at h
      obtain ⟨rfl, h⟩ := h
      cases h
      rfl
  | _ => cases h

namespace Deed

/-- Whether the time of a command is up. -/
def isExpiryOf (n : Nat) : Deed → Bool
  | heeded ⟨r, _, .expiry _ _⟩ => r.number = n
  | _ => false

/-- How often a command was sent. -/
def transmissions (n : Nat) (log : List Deed) : Nat :=
  (log.flatMap (shown .commands)).countP (Effect.transmits n)

/-- How often the time of a command was up. -/
def expiries (n : Nat) (log : List Deed) : Nat := log.countP (isExpiryOf n)

/-- Whether a command hears an answer that counts. -/
def isAnswerTo (n : Nat) : Deed → Bool
  | heeded ⟨⟨number, _, .command a _, _⟩, h, .message _ _ m⟩ => number = n && a.minds h.link.own m
  | _ => false

/-- Whether the link refuses a message of a command. -/
def isRefusalOf (n : Nat) (x : Deed) : Bool :=
  (x.shown .commands).any fun
    | .refused t _ => t = ⟨.commands, n⟩
    | _ => false

/-- Whether a command hears no answer that counts, and none of its messages is refused. -/
def Spares (n : Nat) (x : Deed) : Prop := x.isAnswerTo n = false ∧ x.isRefusalOf n = false

instance (n : Nat) (x : Deed) : Decidable (x.Spares n) := inferInstanceAs (Decidable (_ ∧ _))

def isCancelled : Deed → Bool
  | cancelled _ _ => true
  | _ => false

variable {log deeds : List Deed} {x : Deed} {n m : Nat} {h : Hub}

theorem Spares.minds_eq_false {r : Running} {job : Option Nat} {header : Header} {m : Message}
    {a : Attempt} {k : Nat} (hx : (heeded ⟨r, h, .message job header m⟩).Spares r.number)
    (hr : r.activity = .command a k) :
    a.minds h.link.own m = false := by
  obtain ⟨number, owner, activity, cookie⟩ := r
  obtain rfl : activity = .command a k := hr
  simpa [isAnswerTo] using hx.1

theorem Spares.not_refused (hx : x.Spares n) (m : Message) :
    .refused ⟨.commands, n⟩ m ∉ x.shown .commands := by
  intro hrefused
  have hany := List.any_eq_false.mp hx.2 _ hrefused
  simp at hany

theorem transmissions_append (n : Nat) (log deeds : List Deed) :
    transmissions n (log ++ deeds) = transmissions n log + transmissions n deeds := by
  rw [transmissions, List.flatMap_append, List.countP_append, ← transmissions, ← transmissions]

theorem expiries_append (n : Nat) (log deeds : List Deed) :
    expiries n (log ++ deeds) = expiries n log + expiries n deeds :=
  List.countP_append

theorem transmissions_singleton (n : Nat) (x : Deed) :
    transmissions n [x] = (x.shown .commands).countP (Effect.transmits n) := by
  simp [transmissions]

theorem expiries_singleton (n : Nat) (x : Deed) : expiries n [x] = if x.isExpiryOf n then 1 else 0 := by
  rw [expiries, List.countP_singleton]

section Quiet

variable (hquiet : ∀ x ∈ deeds, x.actor? = none)

include hquiet

theorem transmissions_quiet (n : Nat) : transmissions n deeds = 0 := by
  have hshown : deeds.flatMap (shown .commands) = [] := by
    rw [List.flatMap_eq_nil_iff]
    intro x hx
    have hx := hquiet x hx
    cases x <;> first | rfl | cases hx
  rw [transmissions, hshown, List.countP_nil]

theorem expiries_quiet (n : Nat) : expiries n deeds = 0 := by
  rw [expiries, List.countP_eq_zero]
  intro x hx
  have hx := hquiet x hx
  cases x <;> first | exact Bool.false_ne_true | cases hx

end Quiet

/-- Only a step of its job ends a command because its time is up. -/
theorem actor?_of_timeout (hx : x.ends? .commands = some ⟨n, .commandFailed .timeout⟩) :
    ∃ m h, x.actor? = some (m, h) := by
  cases x with
  | calledOff w => cases hx
  | turnedAway m => cases hx
  | posted e => cases hx
  | dropped e => cases hx
  | _ => exact ⟨_, _, rfl⟩

theorem transmissions_of_ne (ha : x.actor? = some (m, h)) (hn : m ≠ n) : transmissions n [x] = 0 := by
  rw [transmissions_singleton, List.countP_eq_zero]
  intro e he htransmits
  cases hp : x.progress? .commands with
  | none => simp [shown, hp] at he
  | some p =>
      have hjob := (own_step ha hp).1 e (by simpa [shown, hp] using he)
      simp [Effect.transmits, hjob, hn] at htransmits

theorem number_of_isExpiryOf (ha : x.actor? = some (m, h)) (hx : x.isExpiryOf n = true) : m = n := by
  cases x with
  | heeded t =>
      obtain ⟨r, hub, e⟩ := t
      cases ha
      cases e with
      | message job header m => cases hx
      | expiry job c => exact of_decide_eq_true hx
  | _ => cases hx

end Deed

namespace Desk

open Deed

variable {i : Input} {d d' : Desk} {log deeds past : List Deed} {x : Deed} {n budget : Nat} {h : Hub}
    {p : Progress}

section Filed

variable (hf : Filed .commands d log)

include hf

/-- Nothing was sent so far for a command that was not started, and its time was not up. -/
theorem Filed.transmissions_eq_zero (hn : n ∉ begun log) : transmissions n log = 0 := by
  rw [transmissions, List.countP_eq_zero]
  intro e he htransmits
  obtain ⟨x, hx, hshown⟩ := List.mem_flatMap.mp he
  cases hp : x.progress? .commands with
  | none => simp [shown, hp] at hshown
  | some p =>
      obtain ⟨m, h, ha⟩ := actor?_of_progress? hp
      have hjob := (own_step ha hp).1 e (by simpa [shown, hp] using hshown)
      have hm : m = n := by simpa [Effect.transmits, hjob] using (Bool.and_eq_true_iff.mp htransmits).2
      exact hn (hm ▸ begun_of_actor? hf.inTurn hx ha)

theorem Filed.expiries_eq_zero (hn : n ∉ begun log) : expiries n log = 0 := by
  rw [expiries, List.countP_eq_zero]
  intro x hx hexpiry
  have hactor : ∃ m h, x.actor? = some (m, h) := by
    cases x with
    | heeded t => exact ⟨_, _, rfl⟩
    | _ => cases hexpiry
  obtain ⟨m, h, ha⟩ := hactor
  exact hn (number_of_isExpiryOf ha hexpiry ▸ begun_of_actor? hf.inTurn hx ha)

end Filed

/-- Whether all that a command has sent, its expiries and its retries are in balance, and whether it ends for
want of an answer only when it has none left. -/
structure Budgeted (budget : Nat) (d : Desk) (log : List Deed) : Prop where
  running : ∀ r a k, (d.queue .commands).running = some r → r.activity = .command a k →
    transmissions r.number log + k = budget + 1 ∧ expiries r.number log + 1 = transmissions r.number log
  bounded : ∀ n, transmissions n log ≤ budget + 1
  spent : Each (fun past x => ∀ n, x.ends? .commands = some ⟨n, .commandFailed .timeout⟩ →
    transmissions n past = budget + 1 ∧ expiries n (past ++ [x]) = budget + 1) log

namespace Budgeted

theorem quiet (hb : Budgeted budget d log) (hquiet : ∀ x ∈ deeds, x.actor? = none)
    (hrunning : (d'.queue .commands).running = (d.queue .commands).running) :
    Budgeted budget d' (log ++ deeds) where
  running r a k hr ha := by
    rw [transmissions_append, expiries_append, transmissions_quiet hquiet, expiries_quiet hquiet]
    exact hb.running r a k (hrunning ▸ hr) ha
  bounded n := by
    rw [transmissions_append, transmissions_quiet hquiet]
    exact hb.bounded n
  spent := by
    refine hb.spent.append fun past x rest heq n hx => ?_
    obtain ⟨m, h, ha⟩ := actor?_of_timeout hx
    rw [hquiet x (heq ▸ List.mem_append_right _ List.mem_cons_self)] at ha
    cases ha

/-- A step of a command. What was sent for others and their expiries do not matter. -/
theorem after (hb : Budgeted budget d log) (ha : x.actor? = some (n, h)) (hp : x.progress? .commands = some p)
    {sends up : Nat} (hsends : p.effects.countP (Effect.transmits n) = sends) (hup : expiries n [x] = up)
    (q : JobQueue) (hrunning : ∀ r, p.standing = .running r →
      r.number = n ∧ ∃ a k, r.activity = .command a k ∧
      transmissions n log + sends + k = budget + 1 ∧ expiries n log + up + 1 = transmissions n log + sends)
    (hended : ∀ o, p.standing = .ended ⟨n, o⟩ → transmissions n log + sends ≤ budget + 1 ∧
      (o = .commandFailed .timeout → transmissions n log = budget + 1 ∧ expiries n log + up = budget + 1)) :
    Budgeted budget (d.after .commands q p) (log ++ [x]) := by
  have hshown : x.shown .commands = p.effects := by simp [shown, hp]
  have htransmissions : transmissions n (log ++ [x]) = transmissions n log + sends := by
    rw [transmissions_append, transmissions_singleton, hshown, hsends]
  have hexpiries : expiries n (log ++ [x]) = expiries n log + up := by rw [expiries_append, hup]
  have hqueue : ((d.after .commands q p).queue .commands).running = p.standing.running? := by
    simp [Desk.after]
  refine ⟨fun r a k hr hactivity => ?_, fun m => ?_, hb.spent.concat fun m hm => ?_⟩
  · rw [hqueue] at hr
    have hstanding : p.standing = .running r := by
      cases hstanding : p.standing with
      | running r' => rw [hstanding] at hr; cases hr; rfl
      | ended e => rw [hstanding] at hr; cases hr
    obtain ⟨rfl, a', k', hactivity', hbalance⟩ := hrunning r hstanding
    obtain ⟨_, rfl⟩ := Activity.command.inj (hactivity'.symm.trans hactivity)
    rwa [htransmissions, hexpiries]
  · by_cases hm : n = m
    · subst hm
      rw [htransmissions]
      cases hstanding : p.standing with
      | running r =>
          obtain ⟨_, a, k, _, hbalance, _⟩ := hrunning r hstanding
          omega
      | ended e =>
          have hown := (own_step ha hp).2.1 e (by rw [hstanding]; rfl)
          obtain ⟨number, o⟩ := e
          obtain rfl : number = n := hown
          exact (hended o hstanding).1
    · rw [transmissions_append, transmissions_of_ne ha hm]
      exact hb.bounded m
  · rw [ends?_of_progress? hp] at hm
    obtain rfl : m = n := (own_step ha hp).2.1 _ hm
    rw [hexpiries]
    cases hstanding : p.standing with
    | running r => rw [hstanding] at hm; cases hm
    | ended e =>
        rw [hstanding] at hm
        cases hm
        exact (hended _ hstanding).2 rfl

theorem heeded (hb : Budgeted budget d log) {r : Running} {e : Event} (q : JobQueue)
    (running : (d.queue .commands).running = some r) (concerns : e.Concerns r) {a : Attempt} {k : Nat}
    (hr : r.activity = .command a k) :
    Budgeted budget (d.after .commands q (r.take .commands d.hub e)) (log ++ [.heeded ⟨r, d.hub, e⟩]) := by
  obtain ⟨hsent, hexpired⟩ := hb.running r a k running hr
  have hquiet : ∀ job header m, expiries r.number [.heeded ⟨r, d.hub, .message job header m⟩] = 0 :=
    fun _ _ _ => rfl
  have hup : ∀ c, expiries r.number [.heeded ⟨r, d.hub, .expiry r.number c⟩] = 1 := by
    intro c
    have hown : isExpiryOf r.number (.heeded ⟨r, d.hub, .expiry r.number c⟩) = true := decide_eq_true rfl
    rw [expiries_singleton, if_pos hown]
  have hp := Running.take_pursues hr d.hub concerns
  generalize hprogress : r.take .commands d.hub e = p at hp
  have hstep : (Deed.heeded ⟨r, d.hub, e⟩).progress? .commands = some p := congrArg some hprogress
  cases hp with
  | ignored idle =>
      refine hb.after rfl hstep rfl (hquiet _ _ _) q (fun r' hr' => ?_) fun o ho => by cases ho
      cases hr'
      exact ⟨rfl, a, k, hr, hsent, hexpired⟩
  | settled minded idle ended notTimeout silent =>
      have hnone : p.effects.countP (Effect.transmits r.number) = 0 := by rw [silent, List.countP_nil]
      refine hb.after rfl hstep hnone (hquiet _ _ _) q (fun r' hr' => ?_) fun o ho => ?_
      · rw [ended] at hr'
        cases hr'
      · rw [ended] at ho
        cases ho
        exact ⟨by omega, fun htimeout => absurd htimeout notTimeout⟩
  | prolonged progress running' goesOn reports =>
      have hnone : p.effects.countP (Effect.transmits r.number) = 0 := by
        rw [List.countP_eq_zero]
        intro e he
        obtain ⟨f, rfl⟩ := reports e he
        exact Bool.false_ne_true
      refine hb.after rfl hstep hnone (hquiet _ _ _) q (fun r' hr' => ?_) fun o ho => ?_
      · rw [running'] at hr'
        cases hr'
        exact ⟨goesOn.number, a, k, goesOn.activity, hsent, hexpired⟩
      · rw [running'] at ho
        cases ho
  | exhausted own ended silent =>
      have hnone : p.effects.countP (Effect.transmits r.number) = 0 := by rw [silent, List.countP_nil]
      refine hb.after rfl hstep hnone (hup _) q (fun r' hr' => ?_) fun o ho => ?_
      · rw [ended] at hr'
        cases hr'
      · exact ⟨by omega, fun _ => by omega⟩
  | repeated own taken running' goesOn sends =>
      have hone : p.effects.countP (Effect.transmits r.number) = 1 := by
        rw [sends, List.countP_singleton,
          if_pos (by simp [Effect.transmits, Effect.isSent, Effect.job, Running.ticket])]
      refine hb.after rfl hstep hone (hup _) q (fun r' hr' => ?_) fun o ho => ?_
      · rw [running'] at hr'
        cases hr'
        exact ⟨goesOn.number, a, _, goesOn.activity, by omega, by omega⟩
      · rw [running'] at ho
        cases ho
  | refused own refused ended offers =>
      have hnone : p.effects.countP (Effect.transmits r.number) = 0 := by
        rw [offers]
        exact List.countP_singleton
      refine hb.after rfl hstep hnone (hup _) q (fun r' hr' => ?_) fun o ho => ?_
      · rw [ended] at hr'
        cases hr'
      · rw [ended] at ho
        cases ho
        exact ⟨by omega, fun htimeout => by cases htimeout⟩

theorem started (hb : Budgeted d.hub.commandRetries d log) (hf : Filed .commands d log)
    {w : Waiting} {a : Attempt} (q : JobQueue) (hw : w ∈ (d.queue .commands).waiting.items)
    (ha : w.task = .command a) :
    Budgeted d.hub.commandRetries (d.after .commands q (w.start .commands d.hub))
      (log ++ [.started w d.hub]) := by
  have hsent := hf.transmissions_eq_zero (hf.not_begun_of_waiting hw)
  have hexpired := hf.expiries_eq_zero (hf.not_begun_of_waiting hw)
  have hopens := Waiting.start_opens ha d.hub
  generalize hprogress : w.start .commands d.hub = p at hopens
  have hstep : (Deed.started w d.hub).progress? .commands = some p := congrArg some hprogress
  have hup : expiries w.number [.started w d.hub] = 0 := rfl
  cases hopens with
  | @sent r taken running number activity sends =>
      have hone : p.effects.countP (Effect.transmits w.number) = 1 := by
        rw [sends, List.countP_singleton, if_pos (by simp [Effect.transmits, Effect.isSent, Effect.job])]
      refine hb.after rfl hstep hone hup q (fun r' hr' => ?_) fun o ho => ?_
      · rw [running] at hr'
        cases hr'
        exact ⟨number, a, _, activity, by omega, by omega⟩
      · rw [running] at ho
        cases ho
  | refused refused ended offers =>
      have hnone : p.effects.countP (Effect.transmits w.number) = 0 := by
        rw [offers]
        exact List.countP_singleton
      refine hb.after rfl hstep hnone hup q (fun r' hr' => ?_) fun o ho => ?_
      · rw [ended] at hr'
        cases hr'
      · rw [ended] at ho
        cases ho
        exact ⟨by omega, fun htimeout => by cases htimeout⟩

theorem cancelled (hb : Budgeted budget d log) {r : Running} (q : JobQueue)
    (running : (d.queue .commands).running = some r) {a : Attempt} {k : Nat}
    (hr : r.activity = .command a k) :
    Budgeted budget (d.after .commands q (r.cancel .commands d.hub)) (log ++ [.cancelled r d.hub]) := by
  obtain ⟨hended, hsilent⟩ := Running.cancel_command hr .commands d.hub
  obtain ⟨hsent, _⟩ := hb.running r a k running hr
  have hnone : (r.cancel .commands d.hub).effects.countP (Effect.transmits r.number) = 0 := by
    rw [hsilent, List.countP_nil]
  have hup : expiries r.number [.cancelled r d.hub] = 0 := rfl
  refine hb.after (x := .cancelled r d.hub) rfl rfl hnone hup q (fun r' hr' => ?_) fun o ho => ?_
  · rw [hended] at hr'
    cases hr'
  · rw [hended] at ho
    cases ho
    exact ⟨by omega, fun htimeout => by cases htimeout⟩

theorem act (hb : Budgeted budget d log) (hbudget : d.hub.commandRetries = budget) (hs : d.Sound)
    (hc : Commanding d) (hf : Filed .commands d log) (hact : Act i .commands d deeds d') :
    Budgeted budget d' (log ++ deeds) := by
  rcases hact.plays_or_quiet with ⟨x, rfl, hplays⟩ | ⟨hquiet, hrunning⟩
  · cases hplays with
    | heeded running events concerns =>
        obtain ⟨a, k, hr⟩ := hc.activity hs running
        exact hb.heeded _ running concerns hr
    | @started w rest idle waiting =>
        have hw : w ∈ (d.queue .commands).waiting.items := waiting ▸ List.mem_cons_self
        obtain ⟨a, ha⟩ := hc.task hs ((d.queue .commands).waiting_subset_line hw)
        subst hbudget
        exact hb.started hf _ hw ha
    | cancelled running =>
        obtain ⟨a, k, hr⟩ := hc.activity hs running
        exact hb.cancelled _ running hr
  · exact hb.quiet hquiet hrunning

end Budgeted

end Desk

section Work

open Deed

variable {s : Service} {h : Hub} {x : Deed}

theorem isCancelled_deeds (events : List Event) :
    ∀ (r : Running) (h : Hub), ∀ x ∈ r.deeds s events h, x.isCancelled = false := by
  induction events with
  | nil => exact fun _ _ x hx => absurd hx List.not_mem_nil
  | cons e rest ih =>
      intro r h x hx
      rw [Running.deeds] at hx
      rcases List.mem_cons.mp hx with rfl | hx
      · rw [Running.deed]
        split <;> rfl
      · cases hp : (r.take s h e).standing with
        | running r' =>
            simp only [hp] at hx
            exact ih r' _ x hx
        | ended _ =>
            simp only [hp] at hx
            obtain ⟨e', _, rfl⟩ := List.mem_map.mp hx
            rfl

theorem started_of_mem_startDeeds (waiting : List Waiting) :
    ∀ h : Hub, ∀ x ∈ startDeeds s waiting h, ∃ w h', x = .started w h' := by
  induction waiting with
  | nil => exact fun _ x hx => absurd hx List.not_mem_nil
  | cons w rest ih =>
      intro h x hx
      rw [startDeeds] at hx
      rcases List.mem_cons.mp hx with rfl | hx
      · exact ⟨w, h, rfl⟩
      · cases hp : (w.start s h).standing with
        | running r => simp [hp] at hx
        | ended _ =>
            simp only [hp] at hx
            exact ih _ x hx

/-- What is done for a queue with a job under way is what that job does, and the starts of
others when it has ended. -/
theorem JobQueue.deeds_of_running {q : JobQueue} {r : Running} (hr : q.running = some r) :
    ∃ late, q.deeds s h = r.deeds s q.events h ++ late ∧ ∀ x ∈ late, ∃ w h', x = .started w h' := by
  simp only [deeds, hr]
  refine ⟨_, rfl, fun x hx => ?_⟩
  cases hp : (Running.takeAll s q.events r h).standing with
  | running r' => simp [hp] at hx
  | ended _ =>
      simp only [hp] at hx
      exact started_of_mem_startDeeds _ _ x hx

theorem JobQueue.posted_of_mem_news {q q' : JobQueue} (hx : x ∈ q.news q') : ∃ event, x = .posted event := by
  obtain ⟨event, _, rfl⟩ := List.mem_map.mp hx
  exact ⟨event, rfl⟩

theorem JobQueue.isCancelled_deeds (q : JobQueue) (hx : x ∈ q.deeds s h) : x.isCancelled = false := by
  cases hr : q.running with
  | none =>
      simp only [deeds, hr] at hx
      rcases List.mem_append.mp hx with hx | hx
      · obtain ⟨e, _, rfl⟩ := List.mem_map.mp hx
        rfl
      · obtain ⟨w, h', rfl⟩ := started_of_mem_startDeeds _ _ x hx
        rfl
  | some r =>
      obtain ⟨late, heq, hlate⟩ := JobQueue.deeds_of_running (s := s) (h := h) hr
      rw [heq] at hx
      rcases List.mem_append.mp hx with hx | hx
      · exact GroundLink.isCancelled_deeds _ _ _ x hx
      · obtain ⟨w, h', rfl⟩ := hlate x hx
        rfl

theorem JobQueue.isCancelled_news {q q' : JobQueue} (hx : x ∈ q.news q') : x.isCancelled = false := by
  obtain ⟨e, rfl⟩ := JobQueue.posted_of_mem_news hx
  rfl

/-- The job under way is called off only when that is asked for. -/
theorem Engine.cancel_of_isCancelled (e : Engine) {i : Input} {x : Deed} (hx : x ∈ e.deeds s i)
    (hc : x.isCancelled) :
    ∃ side r, s = .mission side ∧ x = .cancelled r e.hub ∧ i = .cancel side r.number := by
  have hnot : x.isCancelled ≠ false := by simp [hc]
  cases i with
  | receive header m => exact absurd (JobQueue.isCancelled_news hx) hnot
  | fireTimers => exact absurd (JobQueue.isCancelled_news hx) hnot
  | work t =>
      rw [deeds] at hx
      split at hx
      · exact absurd (JobQueue.isCancelled_deeds _ hx) hnot
      · cases hx
  | tick =>
      rcases List.mem_append.mp hx with hx | hx
      · exact absurd (JobQueue.isCancelled_news hx) hnot
      · exact absurd (JobQueue.isCancelled_deeds _ hx) hnot
  | transfer side t admission =>
      rw [deeds] at hx
      split at hx
      · rw [JobQueue.submitDeeds] at hx
        split at hx
        · cases hx
        · cases List.mem_singleton.mp hx
          cases hc
      · cases hx
  | cancel side number =>
      rw [deeds] at hx
      split at hx
      · next hs =>
          subst hs
          have hcalledOff : x ∉ (e.queue (.mission side)).calledOff number := by
            intro hx
            obtain ⟨w, _, rfl⟩ := List.mem_map.mp hx
            cases hc
          rw [JobQueue.cancelDeeds] at hx
          split at hx
          · exact absurd hx hcalledOff
          · next r _ =>
              split at hx
              · next hn =>
                  obtain rfl := List.mem_singleton.mp hx
                  exact ⟨side, r, rfl, rfl, by rw [hn]⟩
              · exact absurd hx hcalledOff
      · cases hx
  | _ => cases hx

/-- Commands are not called off. -/
theorem Engine.isCancelled_log (inputs : List Input) :
    ∀ e : Engine, ∀ x ∈ e.log .commands inputs, x.isCancelled = false := by
  induction inputs with
  | nil => exact fun _ x hx => absurd hx List.not_mem_nil
  | cons i rest ih =>
      intro e x hx
      rcases List.mem_append.mp hx with hx | hx
      · by_contra hc
        obtain ⟨side, _, hs, _⟩ := e.cancel_of_isCancelled hx (by simpa using hc)
        cases hs
      · exact ih _ x hx

end Work

namespace Engine

open Deed

variable (config : Config) (link : Link) (clock : Instant) (inputs : List Input)

theorem budgeted_run :
    ((idle config link clock).deskAfter inputs).Budgeted config.commandRetries.toNat
      ((idle config link clock).log .commands inputs) := by
  have hrun := keeps_log (s := .commands)
    (P := fun d past => d.Filed .commands past ∧ d.Commanding ∧ (idle config link clock).hub.Kin d.hub ∧
      d.Budgeted config.commandRetries.toNat past)
    (fun i _ _ h => ⟨h.1.of_under i, h.2.1, h.2.2.1.trans (by cases i <;> exact .refl _), h.2.2.2.running,
      h.2.2.2.bounded, h.2.2.2.spent⟩)
    (fun _ _ _ _ _ hs h hact => ⟨h.1.act hs hact, h.2.1.act hact, h.2.2.1.trans hact.step.kin,
      h.2.2.2.act (congrArg Policy.retries (congrFun h.2.2.1.1 .commands)) hs h.2.1 h.1 hact⟩)
    (fun _ _ _ _ _ _ hts _ h hact => ⟨h.1.other hts hact, h.2.1.other hts hact, h.2.2.1.trans hact.step.kin,
      fun r a k hr => h.2.2.2.running r a k ((hact.aside hts).queue ▸ hr), h.2.2.2.bounded, h.2.2.2.spent⟩)
    config link clock inputs
    ⟨filed_idle config link clock .commands, fun t ht => absurd ht List.not_mem_nil, .refl _,
      fun r a k hr => (by cases hr), fun n => Nat.zero_le _, each_nil⟩
  exact hrun.2.2.2

/-- What a command sends is made for the autopilot that the link reports at that moment. -/
theorem message_of_sent {x : Deed} (hx : x ∈ (idle config link clock).log .commands inputs)
    {t : Ticket} {m : Message} (hsent : .sent t m ∈ x.shown .commands) :
    ∃ h a, x.actor? = some (t.number, h) ∧ (submitted inputs .commands)[t.number]? = some (.command a) ∧
      m = a.request.message h.link.autopilot := by
  cases x with
  | heeded y =>
      obtain ⟨r, h, e⟩ := y
      have hknown := known_run config link clock .commands inputs ⟨r, h, e⟩ hx
      obtain ⟨a, ha⟩ := command_submitted hknown
      obtain ⟨k, hr⟩ := Activity.command_of_task ha
      rw [shown_heeded] at hsent
      by_cases hc : e.Concerns r
      · obtain ⟨_, _, _, _, _, _, rfl, rfl⟩ := Running.repeats_of_sent hr hc hsent
        exact ⟨h, a, rfl, ha ▸ hknown, rfl⟩
      · rw [Running.take_stray hc] at hsent
        cases hsent
  | started w h =>
      have hasked : (submitted inputs .commands)[w.number]? = some w.task :=
        (filed_run config link clock .commands inputs).asked w h hx
      obtain ⟨a, ha⟩ := command_submitted hasked
      rw [shown_started] at hsent
      have hopens := Waiting.start_opens ha h
      generalize w.start .commands h = p at hopens hsent
      cases hopens with
      | sent taken running number activity sends =>
          rw [sends] at hsent
          cases List.mem_singleton.mp hsent
          exact ⟨h, a, rfl, ha ▸ hasked, rfl⟩
      | refused refused ended offers =>
          rw [offers] at hsent
          cases List.mem_singleton.mp hsent
  | cancelled r h =>
      have hnot := isCancelled_log inputs (idle config link clock) _ hx
      cases hnot
  | _ => cases hsent

/-- A message changes neither what a command has sent nor how many retries it has left. -/
theorem retries_of_heard {t : Taking} (ht : .heeded t ∈ (idle config link clock).log .commands inputs)
    {job : Option Nat} {header : Header} {m : Message} (hm : t.event = .message job header m) :
    (∀ e ∈ (t.job.take .commands t.hub t.event).effects, ∃ f, e = .progress (t.job.ticket .commands) f) ∧
      ∀ r, (t.job.take .commands t.hub t.event).standing = .running r → r.activity = t.job.activity := by
  obtain ⟨j, h, e⟩ := t
  obtain rfl : e = .message job header m := hm
  have hknown := known_run config link clock .commands inputs _ ht
  obtain ⟨a, ha⟩ := command_submitted hknown
  obtain ⟨k, hj⟩ := Activity.command_of_task ha
  show (∀ e ∈ (j.take .commands h (.message job header m)).effects, _) ∧
    ∀ r, (j.take .commands h (.message job header m)).standing = .running r → r.activity = j.activity
  by_cases hc : (Event.message job header m).Concerns j
  · have hp := Running.take_pursues hj h hc
    generalize j.take .commands h (.message job header m) = p at hp
    cases hp with
    | ignored idle =>
        refine ⟨fun e he => (by cases he), fun r hr => ?_⟩
        cases hr
        rfl
    | settled minded idle ended notTimeout silent =>
        refine ⟨fun e he => ?_, fun r hr => ?_⟩
        · rw [silent] at he
          cases he
        · rw [ended] at hr
          cases hr
    | prolonged progress running goesOn reports =>
        refine ⟨reports, fun r hr => ?_⟩
        rw [running] at hr
        cases hr
        rw [goesOn.activity, hj]
  · rw [Running.take_stray hc]
    refine ⟨fun e he => (by cases he), fun r hr => ?_⟩
    cases hr
    rfl

theorem commanding_run : ((idle config link clock).deskAfter inputs).Commanding := by
  intro t ht
  obtain ⟨n, hn⟩ := List.getElem?_of_mem ht
  exact command_submitted hn

theorem countP_transmits (n : Nat) :
    ((idle config link clock).run inputs).effects.countP (Effect.transmits n) =
      transmissions n ((idle config link clock).log .commands inputs) := by
  have hseen : ((idle config link clock).run inputs).effects.filter (Effect.isOf .commands) = _ :=
    (filed_run config link clock .commands inputs).seen
  rw [transmissions, ← hseen, List.countP_filter]
  refine List.countP_congr fun x _ => ?_
  rw [Bool.and_eq_true, iff_self_and, Effect.transmits, Bool.and_eq_true, decide_eq_true_eq]
  rintro ⟨hsent, hjob⟩
  cases x with
  | sent t m => simp [Effect.isOf, Effect.isResult, hjob]
  | _ => cases hsent

end Engine

end GroundLink
