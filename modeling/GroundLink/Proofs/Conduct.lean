import GroundLink.Proofs.CommandSteps

/-! What a job does, from its start to its end. Every step of a job makes a move (`Deed.Makes`), and what is
seen of the step and becomes of the job is told by that move and by whether the link took its message
(`Progress.Carries`). So a property of the jobs of a queue that looks back at all that was done there is shown
for moves only (`Deed.Keeps`), and then holds in every run (`Engine.chronicled_run`). -/

namespace GroundLink

open Function

namespace Effect

/-- The message of a job that the link took. -/
def sentBy? (t : Ticket) : Effect → Option Message
  | sent job m => if job = t then some m else none
  | _ => none

/-- The message of a job that was offered to the link, whether it took it or not. -/
def offeredBy? (t : Ticket) : Effect → Option Message
  | sent job m => if job = t then some m else none
  | refused job m => if job = t then some m else none
  | _ => none

end Effect

namespace Deed

/-- The messages of a job that the link takes while something is done. -/
def sends (t : Ticket) (x : Deed) : List Message := (x.shown t.service).filterMap (Effect.sentBy? t)

/-- Those that are offered to it then. -/
def offers (t : Ticket) (x : Deed) : List Message := (x.shown t.service).filterMap (Effect.offeredBy? t)

end Deed

/-- What comes of a move that a job makes. -/
inductive Progress.Carries (t : Ticket) (a : Activity) (move : Move Activity) (p : Progress) : Prop
  | wentOn {r : Running} (standing : p.standing = .running r)
      (state : move.next? = some r.activity ∨ move = .ignore ∧ r.activity = a)
      (sent : p.effects.filterMap (Effect.sentBy? t) = move.message?.toList)
      (offered : p.effects.filterMap (Effect.offeredBy? t) = move.message?.toList)
  | finished {message : Option Message} {report : Option Fraction} {o : Outcome}
      (standing : p.standing = .ended ⟨t.number, o⟩) (move : move = .finish message report o)
      (sent : p.effects.filterMap (Effect.sentBy? t) = message.toList)
      (offered : p.effects.filterMap (Effect.offeredBy? t) = message.toList)
  | refused {m : Message} (standing : p.standing = .ended ⟨t.number, .failure a.task.refusal⟩)
      (message : move.message? = some m) (sent : p.effects.filterMap (Effect.sentBy? t) = [])
      (offered : p.effects.filterMap (Effect.offeredBy? t) = [m])

namespace Progress.Carries

variable {t : Ticket} {a : Activity} {move : Move Activity} {p : Progress}

theorem offered_eq (h : p.Carries t a move) :
    p.effects.filterMap (Effect.offeredBy? t) = move.message?.toList := by
  cases h with
  | wentOn standing state sent offered => exact offered
  | finished standing move sent offered => rw [offered, move, Move.message?]
  | refused standing message sent offered => rw [offered, message, Option.toList_some]

/-- The link takes the message of a job, or else the job has failed. -/
theorem sent_or (h : p.Carries t a move) :
    p.effects.filterMap (Effect.sentBy? t) = move.message?.toList ∨
      p.effects.filterMap (Effect.sentBy? t) = [] ∧
        p.standing = .ended ⟨t.number, .failure a.task.refusal⟩ := by
  cases h with
  | wentOn standing state sent offered => exact .inl sent
  | finished standing move sent offered => exact .inl (by rw [sent, move, Move.message?])
  | refused standing message sent offered => exact .inr ⟨sent, standing⟩

theorem of_ignore (h : p.Carries t a .ignore) :
    (∃ r, p.standing = .running r ∧ r.activity = a) ∧ p.effects.filterMap (Effect.offeredBy? t) = [] := by
  refine ⟨?_, h.offered_eq⟩
  cases h with
  | wentOn standing state sent offered => exact ⟨_, standing, state.elim (fun h => by cases h) And.right⟩
  | finished standing move sent offered => cases move
  | refused standing message sent offered => cases message

theorem of_stop {report : Option Fraction} {o : Outcome} (h : p.Carries t a (.finish none report o)) :
    p.standing = .ended ⟨t.number, o⟩ ∧ p.effects.filterMap (Effect.offeredBy? t) = [] := by
  refine ⟨?_, h.offered_eq⟩
  cases h with
  | wentOn standing state sent offered =>
      rcases state with hnext | ⟨hmove, _⟩
      · cases hnext
      · cases hmove
  | finished standing move sent offered =>
      cases move
      exact standing
  | refused standing message sent offered => cases message

/-- A job that succeeds has made a move by which it does, and the link has taken its message. -/
theorem of_success {v : Value} (h : p.Carries t a move) (hp : p.standing = .ended ⟨t.number, .success v⟩) :
    ∃ message report, move = .finish message report (.success v) ∧
      p.effects.filterMap (Effect.sentBy? t) = message.toList := by
  cases h with
  | wentOn standing state sent offered =>
      rw [hp] at standing
      cases standing
  | finished standing move sent offered =>
      rw [hp] at standing
      cases standing
      exact ⟨_, _, move, sent⟩
  | refused standing message sent offered =>
      rw [hp] at standing
      cases standing

end Progress.Carries

namespace Running

variable {r : Running} {s : Service} {h : Hub} {move : Move Activity} {p : Progress}

theorem filterMap_report {β : Type} (f : Effect → Option β)
    (hf : ∀ t x, f (.progress t x) = none) (r : Running) (s : Service) (report : Option Fraction) :
    (r.report s report).filterMap f = [] := by
  apply List.filterMap_eq_nil_iff.mpr
  intro e he
  obtain ⟨x, -, rfl⟩ := mem_report he
  exact hf _ x

theorem filterMap_sent {f : Effect → Option Message} {t : Ticket} (hf : ∀ m, f (.sent t m) = some m)
    (message : Option Message) : (message.toList.map (.sent t)).filterMap f = message.toList := by
  cases message with
  | none => rfl
  | some m => simp [hf]

/-- What comes of a step of a job is what comes of its move. -/
theorem Follows.carries (hf : r.Follows s h move p) : p.Carries (r.ticket s) r.activity move := by
  have hsent : ∀ m, (Effect.sent (r.ticket s) m).sentBy? (r.ticket s) = some m := fun m => if_pos rfl
  have hoffered : ∀ m, (Effect.sent (r.ticket s) m).offeredBy? (r.ticket s) = some m := fun m => if_pos rfl
  have hmute := filterMap_report (Effect.sentBy? (r.ticket s)) (fun _ _ => rfl) r s
  have hmute' := filterMap_report (Effect.offeredBy? (r.ticket s)) (fun _ _ => rfl) r s
  cases hf with
  | ignored => exact .wentOn rfl (.inr ⟨rfl, rfl⟩) rfl rfl
  | waited wait report message activity taken =>
      apply Progress.Carries.wentOn rfl (.inl rfl)
      · rw [List.filterMap_append, hmute, filterMap_sent hsent]
        rfl
      · rw [List.filterMap_append, hmute', filterMap_sent hoffered]
        rfl
  | broken wait report m activity refused =>
      apply Progress.Carries.refused rfl rfl
      · rw [List.filterMap_append, hmute]
        rfl
      · rw [List.filterMap_append, hmute']
        simp [Effect.offeredBy?]
  | finished message report outcome taken =>
      apply Progress.Carries.finished rfl rfl
      · rw [List.filterMap_append, hmute, filterMap_sent hsent, List.append_nil]
      · rw [List.filterMap_append, hmute', filterMap_sent hoffered, List.append_nil]
  | failed m report outcome refused => exact .refused rfl rfl rfl (by simp [Effect.offeredBy?])

end Running

namespace Deed

/-- The job that makes a step in what is done, what it is about then, and the move it makes. -/
inductive Makes (s : Service) : Deed → Nat → Activity → Move Activity → Prop
  | heard {r : Running} {h : Hub} {job : Option Nat} {header : Header} {m : Message} :
      Makes s (.heeded ⟨r, h, .message job header m⟩) r.number r.activity
        (r.activity.onMessage (h.setting s) header.sender m)
  | expired {r : Running} {h : Hub} {c : Cookie} :
      Makes s (.heeded ⟨r, h, .expiry r.number c⟩) r.number r.activity (r.activity.onTimeout (h.setting s))
  | started {w : Waiting} {h : Hub} :
      Makes s (.started w h) w.number (w.task.initial (h.setting s)) (w.task.start (h.setting s))
  | cancelled {r : Running} {h : Hub} :
      Makes s (.cancelled r h) r.number r.activity (.finish r.activity.farewell? none (.failed .cancelled))

variable {s : Service} {x : Deed} {n : Nat} {a : Activity} {move : Move Activity} {p : Progress}

theorem Makes.actor? (hm : x.Makes s n a move) : ∃ h, x.actor? = some (n, h) := by
  cases hm <;> exact ⟨_, rfl⟩

theorem Makes.progress? (hm : x.Makes s n a move) : ∃ p, x.progress? s = some p := by
  cases hm <;> exact ⟨_, rfl⟩

/-- No move changes what a job was asked for. -/
theorem Makes.task_of_next? (hm : x.Makes s n a move) {b : Activity} (hb : move.next? = some b) :
    b.task = a.task := by
  cases hm with
  | heard => exact Activity.task_of_onMessage hb
  | expired => exact Activity.task_of_onTimeout hb
  | started => rw [Task.task_of_start hb, Task.task_initial]
  | cancelled => cases hb

theorem Makes.task_of_running {t : Ticket} (hm : x.Makes s n a move) (hc : p.Carries t a move) {r : Running}
    (hr : p.standing = .running r) : r.activity.task = a.task := by
  cases hc with
  | wentOn standing state sent offered =>
      obtain rfl := Standing.running.inj (hr.symm.trans standing)
      rcases state with hnext | ⟨_, hsame⟩
      · exact hm.task_of_next? hnext
      · rw [hsame]
  | finished standing => cases hr.symm.trans standing
  | refused standing => cases hr.symm.trans standing

/-- What holds of all that a job does holds of the moves that it makes. -/
theorem Makes.of_moves {P : Move Activity → Prop} (hm : x.Makes s n a move)
    (message : ∀ setting sender m, P (a.onMessage setting sender m))
    (timeout : ∀ setting, P (a.onTimeout setting)) (start : ∀ setting, P (a.task.start setting))
    (farewell : P (.finish a.farewell? none (.failed .cancelled))) : P move := by
  cases hm with
  | heard => exact message _ _ _
  | expired => exact timeout _
  | @started w h =>
      rw [Task.task_initial] at start
      exact start _
  | cancelled => exact farewell

theorem Makes.started_of_begins? (hm : x.Makes s n a move) {m : Nat} (hbegins : x.begins? = some m) :
    ∃ w h, x = .started w h ∧ w.number = n ∧ a = w.task.initial (h.setting s) ∧
      move = w.task.start (h.setting s) := by
  cases hm with
  | @started w h => exact ⟨w, h, rfl, rfl, rfl, rfl⟩
  | _ => cases hbegins

theorem shown_of_progress? (hp : x.progress? s = some p) : x.shown s = p.effects := by
  rw [shown, hp, Option.toList_some, List.flatMap_singleton]

/-- Nothing is seen of what is no step of a job. -/
theorem shown_of_actor?_none (hx : x.actor? = none) (s : Service) : x.shown s = [] := by
  cases x <;> first | rfl | cases hx

theorem flatMap_quiet_of {α : Type} {f : Deed → List α}
    (hf : ∀ x, x.actor? = none → f x = []) {log deeds : List Deed} (hquiet : ∀ x ∈ deeds, x.actor? = none) :
    (log ++ deeds).flatMap f = log.flatMap f := by
  rw [List.flatMap_append, List.flatMap_eq_nil_iff.mpr fun x hx => hf x (hquiet x hx), List.append_nil]

theorem offers_of_actor?_none (hx : x.actor? = none) (t : Ticket) : x.offers t = [] := by
  rw [offers, shown_of_actor?_none hx, List.filterMap_nil]

theorem sends_of_actor?_none (hx : x.actor? = none) (t : Ticket) : x.sends t = [] := by
  rw [sends, shown_of_actor?_none hx, List.filterMap_nil]

theorem sends_subset_offers (t : Ticket) (x : Deed) : x.sends t ⊆ x.offers t := by
  intro m hm
  obtain ⟨e, he, hsent⟩ := List.mem_filterMap.mp hm
  refine List.mem_filterMap.mpr ⟨e, he, ?_⟩
  cases e <;> first | exact hsent | cases hsent

/-- What is to be shown for the moves of jobs so that `K` holds, in view of what was done in a queue, of its
job under way, and `R` of every step, in view of what was done before. -/
structure Keeps (s : Service) (K : Nat → List Deed → Activity → Prop)
    (R : List Deed → Deed → Nat → Activity → Progress → Prop) : Prop where
  quiet : ∀ n a log deeds, (∀ x ∈ deeds, x.actor? = none) → K n log a → K n (log ++ deeds) a
  begins : ∀ log w h p, (∀ x ∈ log, ∀ h', x.actor? ≠ some (w.number, h')) →
    (started w h).progress? s = some p →
    p.Carries ⟨s, w.number⟩ (w.task.initial (h.setting s)) (w.task.start (h.setting s)) →
      R log (.started w h) w.number (w.task.initial (h.setting s)) p ∧
        ∀ r, p.standing = .running r → K w.number (log ++ [.started w h]) r.activity
  goesOn : ∀ log x n a move p, x.Makes s n a move → x.begins? = none → x.progress? s = some p →
    p.Carries ⟨s, n⟩ a move → K n log a →
      R log x n a p ∧ ∀ r, p.standing = .running r → K n (log ++ [x]) r.activity

end Deed

namespace Running

open Deed

/-- A job that acts on an event makes a move, without its timer if that has fired. -/
theorem take_makes (r : Running) (s : Service) (h : Hub) {e : Event} (concerns : e.Concerns r) :
    ∃ move cookie, (heeded ⟨r, h, e⟩).Makes s r.number r.activity move ∧
      ({ r with cookie } : Running).Follows s h move (r.take s h e) := by
  have ht := r.take_takes s h e
  generalize r.take s h e = p at ht
  cases ht with
  | stray stray => exact absurd concerns stray
  | heard concerns => exact ⟨_, r.cookie, .heard, r.follow_follows s h _⟩
  | expired own => exact ⟨_, none, .expired, ({ r with cookie := none } : Running).follow_follows s h _⟩

end Running

namespace Deed

variable {x : Deed} {s : Service} {t : Ticket} {p : Progress}

/-- A step comes of a move, if it is not one of a job that an event does not concern. -/
theorem follows_of_progress? (hp : x.progress? s = some p)
    (hconcerns : ∀ y, x = .heeded y → y.event.Concerns y.job) :
    ∃ r h move, x.Makes s r.number r.activity move ∧ Running.Follows r s h move p := by
  cases x with
  | heeded y =>
      cases hp
      obtain ⟨move, cookie, hmakes, hfollows⟩ := y.job.take_makes s y.hub (hconcerns y rfl)
      exact ⟨{ y.job with cookie }, _, move, hmakes, hfollows⟩
  | started w h =>
      cases hp
      exact ⟨_, _, _, .started, (w.opening (h.setting s)).follow_follows s _ _⟩
  | cancelled r h =>
      cases hp
      exact ⟨_, _, _, .cancelled, r.follow_follows s h _⟩
  | _ => cases hp

/-- What does not come of a move is nothing at all. -/
theorem makes_of_progress? (hp : x.progress? s = some p) :
    (∃ n a move, x.Makes s n a move ∧ p.Carries ⟨s, n⟩ a move) ∨
      p.effects = [] ∧ p.standing.ended? = none := by
  by_cases hconcerns : ∀ y, x = .heeded y → y.event.Concerns y.job
  · obtain ⟨r, h, move, hmakes, hfollows⟩ := follows_of_progress? hp hconcerns
    exact .inl ⟨_, _, move, hmakes, hfollows.carries⟩
  · obtain ⟨y, hy⟩ := Classical.not_forall.mp hconcerns
    obtain ⟨rfl, hstray⟩ := Classical.not_imp.mp hy
    have htake : p = y.job.take s y.hub y.event := (Option.some.inj hp).symm
    rw [htake, Running.take_stray hstray]
    exact .inr ⟨rfl, rfl⟩

/-- What a job offers to the link it offers by a move. -/
theorem makes_of_offers {m : Message} (hm : m ∈ x.offers t) :
    ∃ a move p, x.Makes t.service t.number a move ∧ x.progress? t.service = some p ∧ p.Carries t a move := by
  obtain ⟨e, he, hoffered⟩ := List.mem_filterMap.mp hm
  obtain ⟨p, hp, he⟩ := List.mem_flatMap.mp he
  rw [Option.mem_toList] at hp
  have hjob : e.job = t := by
    cases e with
    | sent job m => exact (Option.ite_none_right_eq_some.mp hoffered).1
    | refused job m => exact (Option.ite_none_right_eq_some.mp hoffered).1
    | _ => cases hoffered
  rcases makes_of_progress? hp with ⟨n, a, move, hmakes, hcarries⟩ | ⟨hnone, _⟩
  · obtain ⟨h, ha⟩ := hmakes.actor?
    obtain rfl : t.number = n := congrArg Ticket.number (hjob.symm.trans ((own_step ha hp).1 e he))
    exact ⟨a, move, p, hmakes, hp, hcarries⟩
  · rw [hnone] at he
    cases he

/-- A job succeeds by a move. -/
theorem makes_of_success {v : Value} (hx : x.ends? t.service = some ⟨t.number, .success v⟩) :
    ∃ a move p, x.Makes t.service t.number a move ∧ x.progress? t.service = some p ∧ p.Carries t a move ∧
      p.standing = .ended ⟨t.number, .success v⟩ := by
  have hprogress : ∃ p, x.progress? t.service = some p := by
    cases x with
    | heeded y => exact ⟨_, rfl⟩
    | started w h => exact ⟨_, rfl⟩
    | cancelled r h => exact ⟨_, rfl⟩
    | calledOff w => cases congrArg Ended.outcome (Option.some.inj hx)
    | turnedAway number => cases congrArg Ended.outcome (Option.some.inj hx)
    | _ => cases hx
  obtain ⟨p, hp⟩ := hprogress
  rw [ends?_of_progress? hp] at hx
  have hstanding : p.standing = .ended ⟨t.number, .success v⟩ := by
    generalize p.standing = standing at hx
    cases standing <;> cases hx
    rfl
  rcases makes_of_progress? hp with ⟨n, a, move, hmakes, hcarries⟩ | ⟨_, hnone⟩
  · obtain ⟨h, ha⟩ := hmakes.actor?
    obtain rfl : t.number = n := (own_step ha hp).2.1 _ hx
    exact ⟨a, move, p, hmakes, hp, hcarries, hstanding⟩
  · rw [hnone] at hx
    cases hx

/-- Whether something is done in which a job makes no step. -/
def Beside (n : Nat) (x : Deed) : Prop := ∀ h, x.actor? ≠ some (n, h)

theorem beside_or (n : Nat) (x : Deed) : x.Beside n ∨ ∃ h, x.actor? = some (n, h) := by
  rw [or_iff_not_imp_right, not_exists]
  exact id

namespace Beside

variable {n : Nat}

theorem begins?_ne (hx : x.Beside n) : x.begins? ≠ some n := by
  intro hbegins
  cases x with
  | started w h => exact hx h (congrArg (fun m => some (m, h)) (Option.some.inj hbegins))
  | _ => cases hbegins

theorem not_makes (hx : x.Beside n) {a : Activity} {move : Move Activity} : ¬x.Makes s n a move := by
  intro hm
  obtain ⟨h, ha⟩ := hm.actor?
  exact hx h ha

theorem offers (hx : x.Beside t.number) : x.offers t = [] := by
  refine List.eq_nil_iff_forall_not_mem.mpr fun m hm => ?_
  obtain ⟨a, move, p, hmakes, -⟩ := makes_of_offers hm
  exact hx.not_makes hmakes

end Beside

/-- Of the steps of jobs as such there is nothing to be kept. -/
theorem keeps_nothing (s : Service) : Keeps s (fun _ _ _ => True) fun _ _ _ _ _ => True where
  quiet _ _ _ _ _ _ := trivial
  begins _ _ _ _ _ _ _ := ⟨trivial, fun _ _ => trivial⟩
  goesOn _ _ _ _ _ _ _ _ _ _ _ := ⟨trivial, fun _ _ => trivial⟩

end Deed

namespace Desk

open Deed

variable {i : Input} {s t : Service} {d d' : Desk} {log deeds : List Deed}
    {K : Nat → List Deed → Activity → Prop}
  {R : List Deed → Deed → Nat → Activity → Progress → Prop}

/-- Whether `K` holds of the job under way and `R` of every step, and all that make one were submitted. -/
structure Chronicled (s : Service) (K : Nat → List Deed → Activity → Prop)
    (R : List Deed → Deed → Nat → Activity → Progress → Prop) (d : Desk) (log : List Deed) : Prop where
  known : ∀ r, (d.queue s).running = some r → K r.number log r.activity
  each : Each (fun past x => ∀ n a move p, x.Makes s n a move → x.progress? s = some p → R past x n a p) log
  asked : ∀ x ∈ log, ∀ n a move, x.Makes s n a move → (d.asked s)[n]? = some a.task

namespace Chronicled

theorem of_asked (hc : Chronicled s K R d log) (hrunning : (d'.queue s).running = (d.queue s).running)
    (hasked : d.asked s <+: d'.asked s) : Chronicled s K R d' log where
  known r hr := hc.known r (hrunning ▸ hr)
  each := hc.each
  asked x hx n a move hm := by
    obtain ⟨more, hmore⟩ := hasked
    have hold := hc.asked x hx n a move hm
    rw [← hmore, List.getElem?_append_left (List.getElem?_eq_some_iff.mp hold).1]
    exact hold

/-- One step of one job. -/
theorem after (hc : Chronicled s K R d log) {x : Deed} {n : Nat} {h : Hub} {p : Progress} {q : JobQueue}
    (ha : x.actor? = some (n, h)) (hp : x.progress? s = some p)
    (hall : ∀ a move, x.Makes s n a move → R log x n a p ∧ (d.asked s)[n]? = some a.task)
    (hknown : ∀ r, p.standing = .running r → K n (log ++ [x]) r.activity) :
    Chronicled s K R (d.after s q p) (log ++ [x]) where
  known r hr := by
    have hr' : p.standing.running? = some r := by simpa [Desk.after] using hr
    obtain ⟨r₀, h', move, rfl, hf, -, -⟩ := Deed.follows ha hp
    rw [(hf.running hr').1]
    apply hknown
    cases hstanding : p.standing with
    | running r₁ =>
        rw [hstanding] at hr'
        cases hr'
        rfl
    | ended e =>
        rw [hstanding] at hr'
        cases hr'
  each := hc.each.concat fun n' a move p' hm hp' => by
    obtain ⟨h', ha'⟩ := hm.actor?
    obtain ⟨rfl, -⟩ := Prod.mk.inj (Option.some.inj (ha.symm.trans ha'))
    obtain rfl := Option.some.inj (hp.symm.trans hp')
    exact (hall a move hm).1
  asked y hy n' a move hm := by
    rcases List.mem_append.mp hy with hold | hnew
    · exact hc.asked y hold n' a move hm
    · obtain rfl := List.mem_singleton.mp hnew
      obtain ⟨h', ha'⟩ := hm.actor?
      obtain ⟨rfl, -⟩ := Prod.mk.inj (Option.some.inj (ha.symm.trans ha'))
      exact (hall a move hm).2

theorem quiet (hc : Chronicled s K R d log) (hkeeps : Keeps s K R) (hquiet : ∀ x ∈ deeds, x.actor? = none)
    (hrunning : (d'.queue s).running = (d.queue s).running) (hasked : d.asked s <+: d'.asked s) :
    Chronicled s K R d' (log ++ deeds) := by
  have hmakes : ∀ x ∈ deeds, ∀ n a move, ¬x.Makes s n a move := by
    intro x hx n a move hm
    obtain ⟨h, ha⟩ := hm.actor?
    rw [hquiet x hx] at ha
    cases ha
  have hsame := hc.of_asked hrunning hasked
  refine ⟨fun r hr => hkeeps.quiet _ _ _ _ hquiet (hsame.known r hr), hsame.each.append ?_, fun x hx => ?_⟩
  · intro past x rest heq n a move p hm
    exact absurd hm (hmakes x (heq ▸ List.mem_append_right _ List.mem_cons_self) n a move)
  · rcases List.mem_append.mp hx with hold | hnew
    · exact hsame.asked x hold
    · exact fun n a move hm => absurd hm (hmakes x hnew n a move)

theorem act (hc : Chronicled s K R d log) (hkeeps : Keeps s K R) (hs : d.Sound) (hf : Filed s d log)
    (hact : Act i s d deeds d') : Chronicled s K R d' (log ++ deeds) := by
  have hasked := hact.asked s
  rcases hact.plays_or_quiet with ⟨x, rfl, hplays⟩ | ⟨hquiet, hrunning⟩
  · cases hplays with
    | @heeded r e rest running events concerns =>
        obtain ⟨move, cookie, hmakes, hfollows⟩ := r.take_makes s d.hub concerns
        have hsubmitted : (d.asked s)[r.number]? = some r.activity.task :=
          hs.lined.asked (JobQueue.slot_mem_line running)
        obtain ⟨hR, hK⟩ := hkeeps.goesOn log _ _ _ move _ hmakes rfl rfl hfollows.carries (hc.known r running)
        refine hc.after rfl rfl (fun a move' hm => ?_) hK
        cases hm <;> exact ⟨hR, hsubmitted⟩
    | @started w rest idle waiting =>
        have hw : w ∈ (d.queue s).waiting.items := waiting ▸ List.mem_cons_self
        have hfresh : ∀ x ∈ log, ∀ h', x.actor? ≠ some (w.number, h') := fun x hx h' ha =>
          hf.not_begun_of_waiting hw (begun_of_actor? hf.inTurn hx ha)
        have hcarries := ((w.opening (d.hub.setting s)).follow_follows s (w.subscribe s d.hub)
          (w.task.start (d.hub.setting s))).carries
        obtain ⟨hR, hK⟩ := hkeeps.begins log w d.hub (w.start s d.hub) hfresh rfl hcarries
        refine hc.after rfl rfl (fun a move' hm => ?_) hK
        cases hm
        refine ⟨hR, ?_⟩
        rw [Task.task_initial]
        exact hs.lined.asked ((d.queue s).waiting_subset_line hw)
    | @cancelled r running =>
        have hcarries :=
          (r.follow_follows s d.hub (.finish r.activity.farewell? none (.failed .cancelled))).carries
        obtain ⟨hR, hK⟩ :=
          hkeeps.goesOn log (.cancelled r d.hub) _ _ _ (r.cancel s d.hub) .cancelled rfl rfl hcarries
            (hc.known r running)
        refine hc.after rfl rfl (fun a move' hm => ?_) hK
        cases hm
        exact ⟨hR, hs.lined.asked (JobQueue.slot_mem_line running)⟩
  · exact hc.quiet hkeeps hquiet hrunning hasked

theorem other (hc : Chronicled s K R d log) (hts : t ≠ s) (hact : Act i t d deeds d') :
    Chronicled s K R d' log :=
  hc.of_asked (congrArg JobQueue.running (hact.aside hts).queue) (hact.asked s)

end Chronicled

end Desk

namespace Engine

open Deed

variable (config : Config) (link : Link) (clock : Instant) (inputs : List Input)

/-- What holds of all moves of jobs holds in every run. -/
theorem chronicled_run {s : Service} {K : Nat → List Deed → Activity → Prop}
    {R : List Deed → Deed → Nat → Activity → Progress → Prop} (hkeeps : Deed.Keeps s K R) :
    ((idle config link clock).deskAfter inputs).Chronicled s K R ((idle config link clock).log s inputs) := by
  have hrun := keeps_log (s := s) (P := fun d past => d.Filed s past ∧ d.Chronicled s K R past)
    (fun i d past h => ⟨h.1.of_under i, h.2.known, h.2.each, h.2.asked⟩)
    (fun i d d' deeds past hs h hact => ⟨h.1.act hs hact, h.2.act hkeeps hs h.1 hact⟩)
    (fun i t d d' deeds past hts hs h hact => ⟨h.1.other hts hact, h.2.other hts hact⟩)
      config link clock inputs
    ⟨filed_idle config link clock s, fun r hr => ?_, Deed.each_nil, fun x hx => absurd hx List.not_mem_nil⟩
  · exact hrun.2
  · obtain _ | ⟨_ | _⟩ := s <;> cases hr

/-- What makes a move was submitted with the task that the move is for. -/
theorem task_of_makes {s : Service} {n : Nat} {task : Task}
    (hasked : (submitted inputs s)[n]? = some task) {x : Deed}
    (hx : x ∈ (idle config link clock).log s inputs) {a : Activity} {move : Move Activity}
    (hm : x.Makes s n a move) :
    a.task = task := by
  have hc := chronicled_run config link clock inputs (keeps_nothing s)
  exact Option.some.inj ((hc.asked x hx n a move hm).symm.trans hasked)

theorem concerns_of_heeded {s : Service} {y : Taking}
    (hy : .heeded y ∈ (idle config link clock).log s inputs) :
    y.event.Concerns y.job := by
  let P (_ : Desk) (past : List Deed) : Prop := ∀ y, .heeded y ∈ past → y.event.Concerns y.job
  have hown : ∀ i d d' deeds past, d.Sound → P d past → Desk.Act i s d deeds d' → P d' (past ++ deeds) := by
    intro i d d' deeds past hs hP hact y hy
    rcases List.mem_append.mp hy with hold | hnew
    · exact hP y hold
    · cases hact.plays hnew rfl with
      | heeded running events concerns => exact concerns
  exact keeps_log (P := P) (fun _ _ _ h => h) hown (fun _ _ _ _ _ _ _ _ h _ => h) config link clock inputs
    (fun y hy => absurd hy List.not_mem_nil) y hy

/-- In a run every step of a job comes of a move. -/
theorem follows_run {s : Service} {x : Deed} (hx : x ∈ (idle config link clock).log s inputs)
    {n : Nat} {h : Hub} (ha : x.actor? = some (n, h)) :
    ∃ (r : Running) (h' : Hub) (move : Move Activity) (p : Progress), x.Makes s n r.activity move ∧
      x.progress? s = some p ∧ r.number = n ∧ r.Follows s h' move p := by
  obtain ⟨p, hp⟩ : ∃ p, x.progress? s = some p := by
    cases x <;> first | exact ⟨_, rfl⟩ | cases ha
  obtain ⟨r, h', move, hmakes, hfollows⟩ :=
    follows_of_progress? hp fun y hy => concerns_of_heeded config link clock inputs (hy ▸ hx)
  obtain ⟨h'', ha'⟩ := hmakes.actor?
  obtain ⟨rfl, -⟩ := Prod.mk.inj (Option.some.inj (ha.symm.trans ha'))
  exact ⟨r, h', move, p, hmakes, hp, rfl, hfollows⟩

/-- A job makes no step before it starts. -/
theorem beside_of_starts {s : Service} {past rest : List Deed} {w : Waiting} {h : Hub}
    (hlog : (idle config link clock).log s inputs = past ++ .started w h :: rest) :
    ∀ y ∈ past, y.Beside w.number := by
  intro y hy h' ha
  have hinTurn := (filed_run config link clock s inputs).inTurn
  have hbegun : w.number ∈ begun past := begun_of_actor? (hlog ▸ hinTurn).left hy ha
  exact Nat.lt_irrefl _ (((hinTurn past _ rest hlog).starts w.number rfl).2.1 w.number hbegun)

/-- What the link takes of a job in a run. -/
theorem sends_run (t : Ticket) :
    ((idle config link clock).run inputs).effects.filterMap (Effect.sentBy? t) =
      ((idle config link clock).log t.service inputs).flatMap (Deed.sends t) := by
  refine filterMap_run config link clock (fun e m hm => ?_) inputs
  cases e with
  | sent job m' =>
      obtain ⟨rfl, _⟩ := Option.ite_none_right_eq_some.mp hm
      simp [Effect.isOf, Effect.job, Effect.isResult]
  | _ => cases hm

/-- What is offered to it. -/
theorem offers_run (t : Ticket) :
    ((idle config link clock).run inputs).effects.filterMap (Effect.offeredBy? t) =
      ((idle config link clock).log t.service inputs).flatMap (Deed.offers t) := by
  refine filterMap_run config link clock (fun e m hm => ?_) inputs
  cases e with
  | sent job m' =>
      obtain ⟨rfl, _⟩ := Option.ite_none_right_eq_some.mp hm
      simp [Effect.isOf, Effect.job, Effect.isResult]
  | refused job m' =>
      obtain ⟨rfl, _⟩ := Option.ite_none_right_eq_some.mp hm
      simp [Effect.isOf, Effect.job, Effect.isResult]
  | _ => cases hm

end Engine

end GroundLink
