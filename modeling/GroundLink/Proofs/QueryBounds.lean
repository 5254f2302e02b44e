import GroundLink.Proofs.CommandSteps
import GroundLink.Proofs.Queries

/-! How much transfers ask. A transfer that fetches a list is told its length once, keeps to it and hands over
a list of just that length (`Desk.Measured`). With this the bounds of its course hold for its whole life: no
query is sent more often than it may try, and a list of `n` items takes at most `n + 1` times as many. -/

namespace GroundLink

open Function

/-- The number of items an event tells a job of. -/
def Event.announces? (a : Activity) : Event → Option Nat
  | message _ _ m => a.announces? m
  | expiry _ _ => none

/-- What comes of a step of a job, in view of what there is to say of jobs under way
and of lists handed over. -/
structure Progress.Vouches (K : Activity → Prop) (F : List MissionItem → Prop) (p : Progress) : Prop where
  running : ∀ r, p.standing.running? = some r → K r.activity
  handed : ∀ n l, p.standing.ended? = some ⟨n, .success (.items l)⟩ → F l

theorem Progress.Vouches.mono {K K' : Activity → Prop} {F F' : List MissionItem → Prop} {p : Progress}
    (h : p.Vouches K F) (hK : ∀ a, K a → K' a) (hF : ∀ l, F l → F' l) : p.Vouches K' F' :=
  ⟨fun r hr => hK _ (h.running r hr), fun n l hl => hF l (h.handed n l hl)⟩

/-- What comes of a step of a job that knows, with what the step tells it, the length
of the list it fetches. -/
structure Progress.Measured (length : Option Nat) (p : Progress) : Prop
    extends p.Vouches (·.length? = length) (length = some ·.length) where
  /-- A job that ends leaves nothing to be answered. -/
  silent : ∀ t, p.standing.running? = none → queries t p.effects = []

namespace Running

variable {r : Running} {s : Service} {h : Hub} {move : Move Activity} {p : Progress}

theorem queries_report (r : Running) (s : Service) (report : Option Fraction) (t : Ticket) :
    queries t (r.report s report) = [] := by
  refine queries_eq_nil t fun x hx => ?_
  obtain ⟨f, _, rfl⟩ := mem_report hx
  rfl

theorem queries_sent {message : Option Message} (silent : message.bind Message.query? = none) (t u : Ticket) :
    queries t (message.toList.map (.sent u)) = [] := by
  refine queries_eq_nil t fun x hx => ?_
  obtain ⟨m, hm, rfl⟩ := List.mem_map.mp hx
  obtain rfl := Option.mem_toList.mp hm
  rw [Option.bind_some] at silent
  simp [Effect.query?, silent]

theorem Follows.vouches {K : Activity → Prop} {F : List MissionItem → Prop} (hf : r.Follows s h move p)
    (ignored : move = .ignore → K r.activity) (waited : ∀ b, move.next? = some b → K b)
    (finished : ∀ message report l, move = .finish message report (.success (.items l)) → F l) :
    p.Vouches K F := by
  refine ⟨fun r' hr' => ?_, fun n l hx => ?_⟩
  · cases hf with
    | ignored =>
        cases hr'
        exact ignored rfl
    | waited wait report message activity taken =>
        cases hr'
        exact waited activity rfl
    | _ => cases hr'
  · rcases hf.ended hx with ⟨message, report, hmove⟩ | hrefused
    · exact finished message report l hmove
    · cases hrefused

theorem Follows.measured_of {length : Option Nat} (hf : r.Follows s h move p)
    (ignored : move = .ignore → r.activity.length? = length)
    (waited : ∀ b, move.next? = some b → b.length? = length)
    (finished : ∀ message report o, move = .finish message report o →
      message.bind Message.query? = none ∧ ∀ l, o = .success (.items l) → length = some l.length) :
    p.Measured length := by
  refine ⟨hf.vouches ignored waited fun message report l hmove => (finished message report _ hmove).2 l rfl,
    fun t hnone => ?_⟩
  cases hf with
  | broken wait report m activity refused =>
      rw [queries_append, queries_report]
      rfl
  | finished message report outcome taken =>
      rw [queries_append, queries_report, queries_sent (finished message report outcome rfl).1,
        List.append_nil]
  | failed m report outcome refused => rfl
  | _ => cases hnone

theorem Follows.measured {policy : Policy} {told : Option Nat} (hf : r.Follows s h move p)
    (ha : r.activity.Abides policy told move) : p.Measured (r.activity.length?.or told) := by
  refine hf.measured_of ?_ ?_ ?_
  · rintro rfl
    cases ha with
    | ignored untold => rw [untold, Option.or_none]
  · intro b hb
    cases ha with
    | waited asks length lacking =>
        cases hb
        exact length
    | _ => cases hb
  · rintro message report o rfl
    cases ha with
    | finished silent whole => exact ⟨silent, whole⟩

theorem take_measured (hl : r.activity.Lacking) {e : Event} (concerns : e.Concerns r) :
    (r.take s h e).Measured (r.activity.length?.or (e.announces? r.activity)) := by
  have ht := r.take_takes s h e
  generalize r.take s h e = p at ht
  cases ht with
  | stray stray => exact absurd concerns stray
  | heard concerns => exact (r.follow_follows s h _).measured (Activity.abides_onMessage hl _ _ _)
  | expired own =>
      exact (({ r with cookie := none } : Running).follow_follows s h _).measured
        (Activity.abides_onTimeout hl _)

end Running

theorem Waiting.start_measured (w : Waiting) (s : Service) (h : Hub) :
    (w.start s h).Measured w.task.announces? := by
  have hf := (w.opening (h.setting s)).follow_follows s (w.subscribe s h) (w.task.start (h.setting s))
  have hbegins := w.task.begins_start (h.setting s)
  refine hf.measured_of (fun hignore => ?_) (fun b hb => ?_) fun message report o hfinish => ?_
  · rw [hignore] at hbegins
    cases hbegins
  · generalize w.task.start (h.setting s) = move at hbegins hb
    cases hbegins with
    | waited asks tries reach length lacking =>
        cases hb
        exact length
    | finished silent whole => cases hb
  · rw [hfinish] at hbegins
    cases hbegins with
    | finished silent whole => exact ⟨silent, whole⟩

namespace Deed

variable {log deeds : List Deed} {x : Deed} {n m : Nat} {h : Hub}

/-- The number of items of which a transfer is told. -/
def announces? (n : Nat) : Deed → Option Nat
  | heeded ⟨r, _, e⟩ => if r.number = n then e.announces? r.activity else none
  | started w _ => if w.number = n then w.task.announces? else none
  | _ => none

/-- The number of items of the list a transfer fetches, as it was told of it. -/
def announced? (n : Nat) (log : List Deed) : Option Nat := log.findSome? (announces? n)

theorem announced?_append (n : Nat) (log deeds : List Deed) :
    announced? n (log ++ deeds) = (announced? n log).or (announced? n deeds) :=
  List.findSome?_append

theorem announced?_singleton (n : Nat) (x : Deed) : announced? n [x] = x.announces? n := by
  rw [announced?, List.findSome?_cons]
  cases x.announces? n <;> rfl

theorem number_of_announces? (hx : x.announces? n ≠ none) : ∃ h, x.actor? = some (n, h) := by
  cases x with
  | heeded t =>
      obtain ⟨r, h, e⟩ := t
      rw [announces?, ne_eq, ite_eq_right_iff, Classical.not_imp] at hx
      exact ⟨h, by rw [← hx.1]; rfl⟩
  | started w h =>
      rw [announces?, ne_eq, ite_eq_right_iff, Classical.not_imp] at hx
      exact ⟨h, by rw [← hx.1]; rfl⟩
  | _ => exact absurd rfl hx

theorem announced?_quiet (hquiet : ∀ x ∈ deeds, x.actor? = none) (n : Nat) : announced? n deeds = none := by
  refine List.findSome?_eq_none_iff.mpr fun x hx => ?_
  by_contra hsome
  obtain ⟨h, ha⟩ := number_of_announces? hsome
  rw [hquiet x hx] at ha
  cases ha

end Deed

namespace Desk

open Deed

variable {i : Input} {s t : Service} {d d' : Desk} {log deeds past : List Deed} {x : Deed} {n : Nat} {h : Hub}
  {p : Progress}

theorem Filed.announced?_eq_none (hf : Filed s d log) (hn : n ∉ begun log) : announced? n log = none := by
  refine List.findSome?_eq_none_iff.mpr fun x hx => ?_
  by_contra hsome
  obtain ⟨h, ha⟩ := number_of_announces? hsome
  exact hn (begun_of_actor? hf.inTurn hx ha)

/-- Whether what there is to say of the job under way, and of the lists that were handed over, goes with what
was done in the queue. -/
structure Vouched (s : Service) (K : Nat → List Deed → Activity → Prop)
    (F : Nat → List Deed → List MissionItem → Prop) (d : Desk) (log : List Deed) : Prop where
  known : ∀ r, (d.queue s).running = some r → K r.number log r.activity
  handed : Each (fun past x => ∀ n l, x.ends? s = some ⟨n, .success (.items l)⟩ → F n (past ++ [x]) l) log

namespace Vouched

variable {K : Nat → List Deed → Activity → Prop} {F : Nat → List Deed → List MissionItem → Prop}

theorem quiet (hv : Vouched s K F d log) (hquiet : ∀ x ∈ deeds, x.actor? = none)
    (hrunning : (d'.queue s).running = (d.queue s).running)
    (hkept : ∀ n a, K n log a → K n (log ++ deeds) a) : Vouched s K F d' (log ++ deeds) where
  known r hr := hkept _ _ (hv.known r (hrunning ▸ hr))
  handed := by
    refine hv.handed.append fun past x rest heq n l hx => ?_
    have hx' := hquiet x (heq ▸ List.mem_append_right _ List.mem_cons_self)
    cases x <;> first | cases hx | cases hx'

theorem after (hv : Vouched s K F d log) (ha : x.actor? = some (n, h)) (hp : x.progress? s = some p)
    (q : JobQueue) (hvouches : p.Vouches (K n (log ++ [x])) (F n (log ++ [x]))) :
    Vouched s K F (d.after s q p) (log ++ [x]) := by
  refine ⟨fun r hr => ?_, hv.handed.concat fun n' l hl => ?_⟩
  · have hr' : p.standing.running? = some r := by simpa [Desk.after] using hr
    obtain ⟨r₀, h', move, rfl, hf, _, _⟩ := Deed.follows ha hp
    rw [(hf.running hr').1]
    exact hvouches.running r hr'
  · rw [ends?_of_progress? hp] at hl
    obtain rfl : n' = n := (own_step ha hp).2.1 _ hl
    exact hvouches.handed n' l hl

/-- A job that is called off hands nothing over. -/
theorem act (hv : Vouched s K F d log) (hf : Filed s d log) (hact : Act i s d deeds d')
    (hquiet : ∀ n a, (∀ x ∈ deeds, x.actor? = none) → K n log a → K n (log ++ deeds) a)
    (hheeded : ∀ r e, (d.queue s).running = some r → e.Concerns r → K r.number log r.activity →
      (r.take s d.hub e).Vouches (K r.number (log ++ [.heeded ⟨r, d.hub, e⟩]))
        (F r.number (log ++ [.heeded ⟨r, d.hub, e⟩])))
    (hstarted : ∀ w ∈ (d.queue s).waiting.items, w.number ∉ begun log →
      (w.start s d.hub).Vouches (K w.number (log ++ [.started w d.hub]))
        (F w.number (log ++ [.started w d.hub]))) :
    Vouched s K F d' (log ++ deeds) := by
  rcases hact.plays_or_quiet with ⟨x, rfl, hplays⟩ | ⟨hnone, hrunning⟩
  · cases hplays with
    | @heeded r e rest running events concerns =>
        exact hv.after (x := .heeded ⟨r, d.hub, e⟩) rfl rfl _
          (hheeded r e running concerns (hv.known r running))
    | @started w rest idle waiting =>
        have hw : w ∈ (d.queue s).waiting.items := waiting ▸ List.mem_cons_self
        exact hv.after (x := .started w d.hub) rfl rfl _ (hstarted w hw (hf.not_begun_of_waiting hw))
    | @cancelled r running =>
        refine hv.after (x := .cancelled r d.hub) rfl rfl _ ⟨fun r' hr' => ?_, fun n l hl => ?_⟩
        · rw [running_cancel] at hr'
          cases hr'
        · rcases (r.follow_follows s d.hub _).ended hl with ⟨message, report, hmove⟩ | hrefused
          · cases hmove
          · cases hrefused
  · exact hv.quiet hnone hrunning fun n a => hquiet n a hnone

end Vouched

/-- Whether transfers know the length of the list they fetch just as they were told, and hand
over lists of that length. -/
abbrev Measured (s : Service) (d : Desk) (log : List Deed) : Prop :=
  Vouched s (fun n log a => announced? n log = a.length?)
    (fun n log l => announced? n log = some l.length) d log

theorem Measured.act (hm : Measured s d log) (hc : Charted d) (hf : Filed s d log)
    (hact : Act i s d deeds d') :
    Measured s d' (log ++ deeds) := by
  refine Vouched.act hm hf hact (fun n a hquiet ha => ?_)
    (fun r e running concerns hknown => ?_) fun w _ hbegun => ?_
  · rw [announced?_append, announced?_quiet hquiet, Option.or_none]
    exact ha
  · obtain ⟨hvouches, _⟩ := r.take_measured (s := s) (h := d.hub) (hc s r running).rationed.1 concerns
    rw [announced?_append, announced?_singleton, announces?, if_pos rfl, hknown]
    exact hvouches.mono (fun _ => Eq.symm) fun _ hl => hl
  · obtain ⟨hvouches, _⟩ := w.start_measured s d.hub
    rw [announced?_append, announced?_singleton, announces?, if_pos rfl, hf.announced?_eq_none hbegun,
      Option.none_or]
    exact hvouches.mono (fun _ => Eq.symm) fun _ hl => hl

theorem Due.measured {q : JobQueue} {r : Running} {move : Move Activity} (hc : Charted d)
    (due : Due d s q r h move) :
    ∃ length, (r.follow s h move).Measured length := by
  cases due with
  | hear running events concerns =>
      have habides := Activity.abides_onMessage (hc s r running).rationed.1
      exact ⟨_, (r.follow_follows s _ _).measured (habides _ _ _)⟩
  | @expire r cookie rest running events own =>
      have habides := Activity.abides_onTimeout (hc s r running).rationed.1
      exact ⟨_, (({ r with cookie := none } : Running).follow_follows s _ _).measured (habides _)⟩
  | start idle waiting => exact ⟨_, Waiting.start_measured _ s d.hub⟩
  | cancel running =>
      exact ⟨_, (r.follow_follows s _ _).measured (Activity.abides_farewell (d.hub.policy s) r.activity none)⟩

/-- Queries are sent only for a job that stays under way. -/
theorem Step.queries (hc : Charted d) (hs : Step i d d') (t : Ticket) :
    queries t d'.effects = queries t d.effects ∨
      ∃ r, (d'.queue t.service).running = some r ∧ r.number = t.number := by
  cases hs with
  | @follow s q r h move due =>
      obtain ⟨length, hmeasured⟩ := due.measured hc
      have hf := r.follow_follows s h move
      generalize r.follow s h move = p at hmeasured hf
      rw [after, queries_append]
      cases hr : p.standing.running? with
      | none => exact .inl (by rw [hmeasured.silent t hr, List.append_nil])
      | some r' =>
          by_cases ht : r.ticket s = t
          · subst ht
            exact .inr ⟨r', by simp [Running.ticket], (hf.running hr).1⟩
          · have hother : GroundLink.queries t p.effects = [] :=
              queries_of_job_ne fun x hx => (hf.effects hx).1 ▸ ht
            exact .inl (by rw [hother, List.append_nil])
  | tell owing => exact .inl (by rw [Desk.tell, queries_append]; exact List.append_nil _)
  | turnAway asked busy => exact .inl (by rw [Desk.turnAway, queries_append]; exact List.append_nil _)
  | deliver received subscribed =>
      refine .inl ?_
      obtain hsame | ⟨s, job, hpost⟩ := deliver_cases d _ _ _
      · rw [hsame]
      · rw [hpost]
        rfl
  | _ => exact .inl rfl

/-- Whether what was asked for the jobs of a queue is within bounds, in view of the
lists they were told of. -/
structure Thrifty (s : Service) (bound : Nat) (d : Desk) (log : List Deed) : Prop where
  each : ∀ n q, (queries ⟨s, n⟩ d.effects).count q ≤ bound
  total : ∀ n, (queries ⟨s, n⟩ d.effects).length ≤ bound * ((announced? n log).getD 0 + 1)

theorem queries_seenOf (d : Desk) (t : Ticket) : queries t (d.seenOf t) = queries t d.effects := by
  rw [queries, seenOf, List.filterMap_filter, queries]
  refine List.filterMap_congr fun x _ => ?_
  cases x with
  | sent job m =>
      by_cases hjob : job = t
      · simp [Effect.job, hjob]
      · simp [Effect.job, Effect.query?, hjob]
  | _ => simp [Effect.query?]

theorem Thrifty.step (h : Thrifty s (max 1 (d'.hub.policy s).retries) d log) (hc : Charted d)
    (hc' : Charted d') (hm : Measured s d' (log ++ deeds)) (hs : Step i d d') :
    Thrifty s (max 1 (d'.hub.policy s).retries) d' (log ++ deeds) := by
  -- a job that was asked for is under way, and what was asked for it so far is on its course
  have hall : ∀ n, queries ⟨s, n⟩ d'.effects = queries ⟨s, n⟩ d.effects ∨
      (∀ q, (queries ⟨s, n⟩ d'.effects).count q ≤ max 1 (d'.hub.policy s).retries) ∧
        (queries ⟨s, n⟩ d'.effects).length ≤
          max 1 (d'.hub.policy s).retries * ((announced? n (log ++ deeds)).getD 0 + 1) := by
    intro n
    refine (hs.queries hc ⟨s, n⟩).imp id ?_
    rintro ⟨r, hr, rfl⟩
    obtain ⟨hlacking, hrationed⟩ := (hc' s r hr).rationed
    rw [queries_seenOf] at hrationed
    refine ⟨hrationed.each, hrationed.total.trans ?_⟩
    rw [hm.known r hr]
    exact Nat.mul_le_mul_left _ (Nat.succ_le_succ hlacking.reach_le)
  refine ⟨fun n q => ?_, fun n => ?_⟩
  · rcases hall n with hsame | ⟨heach, _⟩
    · rw [hsame]
      exact h.each n q
    · exact heach q
  · rcases hall n with hsame | ⟨_, htotal⟩
    · rw [hsame, announced?_append]
      refine (h.total n).trans (Nat.mul_le_mul_left _ (Nat.succ_le_succ ?_))
      cases announced? n log with
      | none => exact Nat.zero_le _
      | some k => exact Nat.le_refl _
    · exact htotal

end Desk

namespace Engine

open Deed

variable (config : Config) (link : Link) (clock : Instant) (inputs : List Input)

theorem thrifty_run (s : Service) :
    let e := idle config link clock
    (e.deskAfter inputs).Measured s (e.log s inputs) ∧
      (e.deskAfter inputs).Thrifty s (max 1 (e.hub.policy s).retries) (e.log s inputs) := by
  intro e
  have hrun := keeps_log (s := s)
    (P := fun d past => d.Charted ∧ d.Filed s past ∧ e.hub.Kin d.hub ∧ d.Measured s past ∧
      d.Thrifty s (max 1 (e.hub.policy s).retries) past)
    (fun i d past h => by
      obtain ⟨hc, hf, hkin, hm, ht⟩ := h
      exact ⟨hc.keep (by cases i <;> exact .refl _) fun _ _ hr => ⟨hr, rfl⟩, hf.of_under i,
        hkin.trans (by cases i <;> exact .refl _), ⟨hm.known, hm.handed⟩, ⟨ht.each, ht.total⟩⟩)
    (fun i d d' deeds past hs h hact => by
      obtain ⟨hc, hf, hkin, hm, ht⟩ := h
      have hc' := hc.step hs hact.step
      have hkin' := hkin.trans hact.step.kin
      have hm' := hm.act hc hf hact
      rw [← hkin'.1] at ht ⊢
      exact ⟨hc', hf.act hs hact, hkin', hm', ht.step hc hc' hm' hact.step⟩)
    (fun i t d d' deeds past hts hs h hact => by
      obtain ⟨hc, hf, hkin, hm, ht⟩ := h
      have hc' := hc.step hs hact.step
      have hkin' := hkin.trans hact.step.kin
      have hm' : d'.Measured s past := ⟨fun r hr => hm.known r ((hact.aside hts).queue ▸ hr), hm.handed⟩
      rw [← hkin'.1] at ht ⊢
      refine ⟨hc', hf.other hts hact, hkin', hm', ?_⟩
      have hstep : d'.Thrifty s _ (past ++ []) := ht.step hc hc' (by rwa [List.append_nil]) hact.step
      rwa [List.append_nil] at hstep)
    config link clock inputs ⟨fun t r hr => ?_, filed_idle config link clock s, .refl _,
      ⟨fun r hr => ?_, each_nil⟩, ⟨fun _ _ => Nat.zero_le _, fun _ => Nat.zero_le _⟩⟩
  · exact ⟨hrun.2.2.2.1, hrun.2.2.2.2⟩
  · obtain _ | ⟨_ | _⟩ := t <;> cases hr
  · obtain _ | ⟨_ | _⟩ := s <;> cases hr

/-- No query is sent for a transfer more often than it may try, in its whole life, and one that fetches a list
of `n` items sends at most `n + 1` times as many queries; that list is what it hands over. -/
theorem run_rations_queries (side : Side) (n : Nat) :
    let e := idle config link clock
    let asked := queries ⟨.mission side, n⟩ (e.run inputs).effects
    let items := (announced? n (e.log (.mission side) inputs)).getD 0
    (∀ q, asked.count q ≤ max 1 config.missionRetries.toNat) ∧
      asked.length ≤ max 1 config.missionRetries.toNat * (items + 1) ∧
      ∀ l, .result ⟨.mission side, n⟩ (.success (.items l)) ∈ (e.run inputs).effects → l.length = items := by
  intro e asked items
  obtain ⟨hm, ht⟩ := thrifty_run config link clock inputs (.mission side)
  refine ⟨ht.each n, ht.total n, fun l hl => ?_⟩
  obtain ⟨x, hx, hends⟩ := ends_of_result config link clock hl
  obtain ⟨past, rest, hlog⟩ := List.append_of_mem hx
  have hwhole := hm.handed past x rest hlog n l hends
  have hall : announced? n (e.log (.mission side) inputs) = some l.length := by
    rw [hlog, List.append_cons, announced?_append, hwhole, Option.some_or]
  show l.length = (announced? n (e.log (.mission side) inputs)).getD 0
  rw [hall, Option.getD_some]

/-- With two tries a list of one item takes four queries, if only the second of each is answered. -/
theorem run_rations_queries_spent :
    let config : Config := { Config.default with missionRetries := 2 }
    let item : MissionItem := .blank
    let inputs : List Input :=
      [.transfer .client (.download ⟨⟨.pilotOf 1, .mission⟩, false⟩) .queue, .tick, .advance 500000, .tick,
        .receive ⟨.pilotOf 1, 0⟩ (.missionCount ⟨1, config.own, .mission⟩), .tick, .advance 500000, .tick,
        .receive ⟨.pilotOf 1, 0⟩ (.missionItemInt (item.encode config.own)), .tick]
    let e := idle config default 0
    let asked := queries ⟨.mission .client, 0⟩ (e.run inputs).effects
    asked = [.list, .list, .item 0, .item 0] ∧ (∀ q, asked.count q ≤ 2) ∧
      .result ⟨.mission .client, 0⟩ (.success (.items [item])) ∈ (e.run inputs).effects ∧
      (announced? 0 (e.log (.mission .client) inputs)).getD 0 = 1 := by
  intro config item inputs e asked
  have hasked : asked = [.list, .list, .item 0, .item 0] := by decide +kernel
  have hresult : .result ⟨.mission .client, 0⟩ (.success (.items [item])) ∈ (e.run inputs).effects := by
    decide +kernel
  obtain ⟨heach, _, hwhole⟩ := run_rations_queries config default 0 inputs .client 0
  exact ⟨hasked, heach, hresult, (hwhole _ hresult).symm⟩

end Engine

end GroundLink
