import Mathlib.Algebra.Order.Field.Basic
import Mathlib.Algebra.Order.Field.Rat
import Mathlib.Data.List.Induction
import GroundLink.Proofs.Conduct

/-! How jobs report how far they have come. A job that is to wait on reports whether or not the link takes its
message, one that ends only once it does (`Progress.Tells`); so a transfer has reported that all is done just
if it has succeeded. If the steps in between are an account of what was done in its queue that every move
keeps (`Deed.Paces`), the transfer comes on by them in every run (`Engine.advances_of_paces`). -/

namespace GroundLink

open Function Deed

namespace Fraction

variable {f : Fraction}

/-- The fraction itself, as it is before it is rounded. -/
def value (f : Fraction) : ℚ := f.num / f.den

theorem value_zero : zero.value = 0 := by
  rw [value, zero, Nat.cast_zero, zero_div]

theorem value_one : one.value = 1 := by
  rw [value, one, Nat.cast_one, div_one]

theorem value_mem (hden : 0 < f.den) (hle : f.num ≤ f.den) : 0 ≤ f.value ∧ f.value ≤ 1 :=
  ⟨div_nonneg (Nat.cast_nonneg _) (Nat.cast_nonneg _),
    (div_le_one (Nat.cast_pos.mpr hden)).mpr (Nat.cast_le.mpr hle)⟩

theorem value_mem_inside (hnum : 0 < f.num) (hlt : f.num < f.den) : 0 < f.value ∧ f.value < 1 := by
  have hden : (0 : ℚ) < f.den := Nat.cast_pos.mpr (hnum.trans hlt)
  exact ⟨div_pos (Nat.cast_pos.mpr hnum) hden, (div_lt_one hden).mpr (Nat.cast_lt.mpr hlt)⟩

variable {g : Fraction} {c : Prop}

open scoped Classical in
/-- The report of a fraction, if there is one. -/
noncomputable def when (c : Prop) (f : Fraction) : List Fraction := if c then [f] else []

theorem when_of (h : c) (f : Fraction) : f.when c = [f] := if_pos h

theorem when_of_not (h : ¬c) (f : Fraction) : f.when c = [] := if_neg h

theorem mem_when : g ∈ f.when c ↔ g = f ∧ c := by
  by_cases h : c
  · rw [when_of h, List.mem_singleton, and_iff_left h]
  · rw [when_of_not h]
    exact iff_of_false List.not_mem_nil fun hg => h hg.2

end Fraction

/-- How a transfer comes on by its reports: from nothing once it is opened, by steps, to all
once it has succeeded. -/
structure Advances (opened succeeded : Prop) (steps reports : List Fraction) : Prop where
  course : reports = Fraction.zero.when opened ++ steps ++ Fraction.one.when succeeded
  inside : ∀ f ∈ steps, 0 < f.value ∧ f.value < 1
  /-- That nothing is done is reported first and once. -/
  zero : opened → ∃ rest, reports = .zero :: rest ∧ ∀ f ∈ rest, f.value ≠ 0
  /-- That all is done is reported just if the transfer succeeds, last and once. -/
  one : succeeded → ∃ before, reports = before ++ [.one] ∧ ∀ f ∈ before, f.value ≠ 1
  whole : (∃ f ∈ reports, f.value = 1) ↔ succeeded
  silent : ¬opened → reports = []

namespace Advances

variable {opened succeeded : Prop} {steps reports : List Fraction}

theorem of_course (course : reports = Fraction.zero.when opened ++ steps ++ Fraction.one.when succeeded)
    (inside : ∀ f ∈ steps, 0 < f.value ∧ f.value < 1) (silent : ¬opened → reports = []) :
    Advances opened succeeded steps reports := by
  have hbefore : ∀ f ∈ Fraction.zero.when opened ++ steps, f.value ≠ 1 := by
    intro f hf
    rcases List.mem_append.mp hf with hzero | hstep
    · rw [(Fraction.mem_when.mp hzero).1, Fraction.value_zero]
      exact zero_ne_one
    · exact (inside f hstep).2.ne
  refine ⟨course, inside, fun hopened => ?_, fun hsucceeded => ?_, ⟨?_, fun hsucceeded => ?_⟩, silent⟩
  · rw [Fraction.when_of hopened, List.append_assoc] at course
    refine ⟨steps ++ Fraction.one.when succeeded, course, fun f hf => ?_⟩
    rcases List.mem_append.mp hf with hstep | hone
    · exact (inside f hstep).1.ne'
    · rw [(Fraction.mem_when.mp hone).1, Fraction.value_one]
      exact one_ne_zero
  · rw [Fraction.when_of hsucceeded] at course
    exact ⟨_, course, hbefore⟩
  · rintro ⟨f, hf, hone⟩
    rw [course] at hf
    rcases List.mem_append.mp hf with hearlier | hlast
    · exact absurd hone (hbefore f hearlier)
    · exact (Fraction.mem_when.mp hlast).2
  · refine ⟨.one, ?_, Fraction.value_one⟩
    rw [course]
    exact List.mem_append_right _ (Fraction.mem_when.mpr ⟨rfl, hsucceeded⟩)

theorem range (h : Advances opened succeeded steps reports) : ∀ f ∈ reports, 0 ≤ f.value ∧ f.value ≤ 1 := by
  intro f hf
  rw [h.course] at hf
  rcases List.mem_append.mp hf with hearlier | hlast
  · rcases List.mem_append.mp hearlier with hzero | hstep
    · rw [(Fraction.mem_when.mp hzero).1, Fraction.value_zero]
      exact ⟨le_rfl, zero_le_one⟩
    · exact ⟨(h.inside f hstep).1.le, (h.inside f hstep).2.le⟩
  · rw [(Fraction.mem_when.mp hlast).1, Fraction.value_one]
    exact ⟨zero_le_one, le_rfl⟩

end Advances

/-- The report of a job. -/
def Effect.reportBy? (t : Ticket) : Effect → Option Fraction
  | progress job f => if job = t then some f else none
  | _ => none

namespace Reaction

/-- The reports of a job, in order. -/
def reports (r : Reaction) (t : Ticket) : List Fraction := r.effects.filterMap (Effect.reportBy? t)

/-- Whether it is told that a job has succeeded. -/
def Succeeds (r : Reaction) (t : Ticket) : Prop := ∃ v, .result t (.success v) ∈ r.effects

end Reaction

namespace Move

variable {σ ρ : Type}

/-- What a job reports that is to wait on. -/
def pace? : Move σ → Option Fraction
  | proceed _ report _ _ => report
  | _ => none

/-- Whether a transfer that ends by a move reports that all is done just if it succeeds. -/
def Closes : Move σ → Prop
  | finish _ report (.success _) => report = some .one
  | finish _ report (.failure _) => report = none
  | _ => True

/-- Whether nothing is reported of a job that ends by a move. -/
def Mute : Move σ → Prop
  | finish _ report _ => report = none
  | _ => True

theorem pace?_map (f : σ → ρ) (m : Move σ) : (m.map f).pace? = m.pace? := by
  cases m <;> rfl

theorem closes_map (f : σ → ρ) (m : Move σ) : (m.map f).Closes ↔ m.Closes := by
  cases m with
  | finish message report o => cases o <;> exact Iff.rfl
  | _ => exact Iff.rfl

theorem mute_map (f : σ → ρ) (m : Move σ) : (m.map f).Mute ↔ m.Mute := by
  cases m <;> exact Iff.rfl

theorem closes_stop (e : TransferError) : (stop (.failed e) : Move σ).Closes := rfl

end Move

/-- What is reported in a step, and whether the job has succeeded then. -/
inductive Progress.Tells (t : Ticket) (move : Move Activity) (p : Progress) : Prop
  | onTheWay (unfinished : ∀ v, p.standing ≠ .ended ⟨t.number, .success v⟩)
      (told : p.effects.filterMap (Effect.reportBy? t) = move.pace?.toList)
  | atTheEnd {message : Option Message} {report : Option Fraction} {o : Outcome}
      (move : move = .finish message report o) (ended : p.standing = .ended ⟨t.number, o⟩)
      (told : p.effects.filterMap (Effect.reportBy? t) = report.toList)

namespace Running

variable {r : Running} {s : Service} {h : Hub} {move : Move Activity} {p : Progress}

theorem filterMap_reportBy?_report (hwants : r.activity.task.wantsProgress = true)
    (report : Option Fraction) :
    (r.report s report).filterMap (Effect.reportBy? (r.ticket s)) = report.toList := by
  cases report with
  | none => rfl
  | some f =>
      rw [Running.report, if_pos hwants]
      simp [Effect.reportBy?]

theorem filterMap_reportBy?_sent (message : Option Message) :
    (message.toList.map (.sent (r.ticket s))).filterMap (Effect.reportBy? (r.ticket s)) = [] := by
  cases message <;> rfl

theorem Follows.tells (hf : r.Follows s h move p) (hwants : r.activity.task.wantsProgress = true) :
    p.Tells (r.ticket s) move := by
  cases hf with
  | ignored => exact .onTheWay (fun v hv => by cases hv) rfl
  | waited wait report message activity taken =>
      apply Progress.Tells.onTheWay fun v hv => by cases hv
      rw [List.filterMap_append, filterMap_reportBy?_report hwants, filterMap_reportBy?_sent, List.append_nil]
      rfl
  | broken wait report m activity refused =>
      apply Progress.Tells.onTheWay fun v hv => by cases hv
      rw [List.filterMap_append, filterMap_reportBy?_report hwants]
      exact List.append_nil _
  | finished message report outcome taken =>
      apply Progress.Tells.atTheEnd rfl rfl
      rw [List.filterMap_append, filterMap_reportBy?_sent, filterMap_reportBy?_report hwants, List.nil_append]
  | failed m report outcome refused => exact .onTheWay (fun v hv => by cases hv) rfl

/-- Nothing is reported of a job to which nobody listens. -/
theorem Follows.mute (hf : r.Follows s h move p) (hwants : r.activity.task.wantsProgress = false)
    (t : Ticket) :
    p.effects.filterMap (Effect.reportBy? t) = [] := by
  have hreport : ∀ report, r.report s report = [] := by
    intro report
    cases report with
    | none => rfl
    | some f => rw [Running.report, hwants, if_neg Bool.false_ne_true]
  have hsent : ∀ message : Option Message,
      (message.toList.map (.sent (r.ticket s))).filterMap (Effect.reportBy? t) = [] := fun message => by
    cases message <;> rfl
  cases hf with
  | ignored => rfl
  | waited wait report message activity taken => rw [hreport, List.nil_append, hsent]
  | broken wait report m activity refused =>
      rw [hreport]
      rfl
  | finished message report outcome taken => rw [hreport, List.append_nil, hsent]
  | failed m report outcome refused => rfl

end Running

namespace Deed

variable {t : Ticket} {x : Deed} {log past : List Deed} {p : Progress} {move : Move Activity}

/-- What a job reports while something is done. -/
def reports (t : Ticket) (x : Deed) : List Fraction := (x.shown t.service).filterMap (Effect.reportBy? t)

/-- Whether a job succeeds when something is done. -/
def Succeeds (t : Ticket) (x : Deed) : Prop := ∃ v, x.ends? t.service = some ⟨t.number, .success v⟩

namespace Beside

theorem reports (hx : x.Beside t.number) : x.reports t = [] := by
  refine List.filterMap_eq_nil_iff.mpr fun e he => ?_
  obtain ⟨p, hp, he⟩ := List.mem_flatMap.mp he
  obtain ⟨m, h, ha⟩ := actor?_of_progress? (Option.mem_toList.mp hp)
  have hjob := (own_step ha (Option.mem_toList.mp hp)).1 e he
  cases e with
  | progress job f =>
      refine if_neg fun hsame => hx h ?_
      rw [ha, ← hsame, show job = ⟨t.service, m⟩ from hjob]
  | _ => rfl

theorem not_succeeds (hx : x.Beside t.number) : ¬x.Succeeds t := by
  rintro ⟨v, hv⟩
  obtain ⟨a, move, p, hmakes, -⟩ := makes_of_success hv
  exact hx.not_makes hmakes

end Beside

/-- An account that each step keeps up says all that there is. -/
theorem flatMap_eq_of_each {α : Type} {f : Deed → List α} {account : List Deed → List α}
    (hnil : account [] = []) (heach : Each (fun past x => account (past ++ [x]) = account past ++ f x) log) :
    log.flatMap f = account log := by
  induction log using List.reverseRecOn with
  | nil => exact hnil.symm
  | append_singleton past x ih =>
      rw [List.flatMap_append, List.flatMap_singleton, heach past x [] rfl, ih heach.left]

theorem succeeds_iff (hp : x.progress? t.service = some p) :
    x.Succeeds t ↔ ∃ v, p.standing = .ended ⟨t.number, .success v⟩ := by
  rw [Succeeds, ends?_of_progress? hp]
  cases p.standing <;> simp [Standing.ended?]

/-- A step of a transfer that reports that all is done just if it succeeds. -/
theorem reports_of_closes (htells : p.Tells t move) (hcloses : move.Closes)
    (hp : x.progress? t.service = some p) :
    x.reports t = move.pace?.toList ++ Fraction.one.when (x.Succeeds t) := by
  rw [Deed.reports, shown_of_progress? hp]
  cases htells with
  | onTheWay unfinished told =>
      rw [told, Fraction.when_of_not fun hx => ?_, List.append_nil]
      obtain ⟨v, hv⟩ := (succeeds_iff hp).mp hx
      exact unfinished v hv
  | @atTheEnd message report o move ended told =>
      subst move
      rw [told]
      cases o with
      | success v =>
          obtain rfl : report = some .one := hcloses
          rw [Fraction.when_of ((succeeds_iff hp).mpr ⟨v, ended⟩)]
          rfl
      | failure cause =>
          obtain rfl : report = none := hcloses
          rw [Fraction.when_of_not fun hx => ?_]
          · rfl
          · obtain ⟨v, hv⟩ := (succeeds_iff hp).mp hx
            cases ended.symm.trans hv

theorem reports_of_mute (htells : p.Tells t move) (hmute : move.Mute) (hp : x.progress? t.service = some p) :
    x.reports t = move.pace?.toList := by
  rw [Deed.reports, shown_of_progress? hp]
  cases htells with
  | onTheWay unfinished told => exact told
  | @atTheEnd message report o move ended told =>
      subst move
      obtain rfl : report = none := hmute
      exact told

/-- What is to be shown of the steps that a transfer with the given task reports, so that
they are an account of it. -/
structure Paces (t : Ticket) (task : Task) (opened : Prop) (steps : List Deed → List Fraction)
    (log : List Deed) : Prop where
  nil : steps [] = []
  beside : ∀ past x, x.Beside t.number → steps (past ++ [x]) = steps past
  opens : ∀ past w h, w.number = t.number → w.task = task → steps (past ++ [.started w h]) = steps past
  start : ∀ setting, (task.start setting).pace?.toList = Fraction.zero.when opened
  goesOn : ∀ past x rest, log = past ++ x :: rest → ∀ a move p, x.Makes t.service t.number a move →
    x.begins? = none → x.progress? t.service = some p → p.Carries t a move →
      steps (past ++ [x]) = steps past ++ move.pace?.toList
  closes : ∀ (x : Deed) (a : Activity) (move : Move Activity), x.Makes t.service t.number a move →
    a.task = task → move.Closes
  unopened : ¬opened → ∀ x ∈ log, x.reports t = []
  inside : ∀ f ∈ steps log, 0 < f.value ∧ f.value < 1

theorem Paces.steps_eq_nil {task : Task} {opened : Prop} {steps : List Deed → List Fraction}
    (hpaces : Paces t task opened steps log) (hbeside : ∀ y ∈ past, y.Beside t.number) : steps past = [] := by
  induction past using List.reverseRecOn with
  | nil => exact hpaces.nil
  | append_singleton past y ih =>
      rw [hpaces.beside past y (hbeside y (List.mem_append_right _ (List.mem_singleton_self y)))]
      exact ih fun y hy => hbeside y (List.mem_append_left _ hy)

section Account

variable {opened : Prop} {steps : List Deed → List Fraction}

/-- All that a transfer has reported, if those are the steps that it has reported on the way. -/
noncomputable def account (t : Ticket) (opened : Prop) (steps : List Deed → List Fraction) (log : List Deed) :
    List Fraction :=
  Fraction.zero.when (t.number ∈ begun log ∧ opened) ++ steps log ++
    Fraction.one.when (∃ x ∈ log, x.Succeeds t)

theorem exists_succeeds_concat :
    (∃ y ∈ log ++ [x], y.Succeeds t) ↔ (∃ y ∈ log, y.Succeeds t) ∨ x.Succeeds t := by
  simp only [List.mem_append, List.mem_singleton, or_and_right, exists_or, exists_eq_left]

/-- The account is not touched by what is done beside the transfer. -/
theorem account_beside (hbeside : x.Beside t.number) (hsteps : steps (past ++ [x]) = steps past) :
    account t opened steps (past ++ [x]) = account t opened steps past := by
  have hbegun : t.number ∈ begun (past ++ [x]) ↔ t.number ∈ begun past := by
    rw [begun_concat, List.mem_append, Option.mem_toList]
    exact or_iff_left hbeside.begins?_ne
  simp only [account, hbegun, hsteps, exists_succeeds_concat, hbeside.not_succeeds, or_false]

/-- A step of a transfer under way adds what it reports. -/
theorem account_goesOn (hlater : x.begins? = none) (hpast : ∀ y ∈ past, ¬y.Succeeds t)
    (hsteps : steps (past ++ [x]) = steps past ++ move.pace?.toList)
    (hreports : x.reports t = move.pace?.toList ++ Fraction.one.when (x.Succeeds t)) :
    account t opened steps (past ++ [x]) = account t opened steps past ++ x.reports t := by
  have hnone : ¬∃ y ∈ past, y.Succeeds t := fun ⟨y, hy, hsucceeds⟩ => hpast y hy hsucceeds
  rw [account, account, begun_concat, hlater, Option.toList_none, List.append_nil, hsteps,
    Fraction.when_of_not hnone, List.append_nil, hreports]
  simp only [exists_succeeds_concat, hnone, false_or, List.append_assoc]

/-- So does the step with which it starts, for which there is nothing in the account yet. -/
theorem account_opens {w : Waiting} {h : Hub} (hnumber : w.number = t.number)
    (hbeside : ∀ y ∈ past, y.Beside t.number) (hnone : steps past = [])
    (hsteps : steps (past ++ [.started w h]) = steps past)
    (hstart : move.pace?.toList = Fraction.zero.when opened)
    (hreports : (started w h).reports t = move.pace?.toList ++ Fraction.one.when ((started w h).Succeeds t)) :
    account t opened steps (past ++ [.started w h]) = account t opened steps past ++
      (started w h).reports t := by
  have hunbegun : t.number ∉ begun past := by
    intro hbegun
    obtain ⟨y, hy, hbegins⟩ := List.mem_filterMap.mp hbegun
    exact (hbeside y hy).begins?_ne hbegins
  have hbegun : t.number ∈ begun (past ++ [.started w h]) := by
    rw [begun_concat]
    exact List.mem_append_right _ (Option.mem_toList.mpr (congrArg some hnumber))
  have hfresh : ¬∃ y ∈ past, y.Succeeds t := fun ⟨y, hy, hsucceeds⟩ => (hbeside y hy).not_succeeds hsucceeds
  have hempty : account t opened steps past = [] := by
    rw [account, Fraction.when_of_not fun h => hunbegun h.1, hnone, Fraction.when_of_not hfresh]
    rfl
  rw [hempty, account, hsteps, hnone, List.append_nil, List.nil_append, hreports, hstart]
  simp only [exists_succeeds_concat, hfresh, false_or, hbegun, true_and]

end Account

end Deed

namespace Engine

variable (config : Config) (link : Link) (clock : Instant) {inputs : List Input} {t : Ticket} {task : Task}

/-- A job that goes on has not succeeded yet. -/
theorem unfinished_of_goesOn {past rest : List Deed} {x : Deed}
    (hlog : (idle config link clock).log t.service inputs = past ++ x :: rest) {h : Hub}
    (ha : x.actor? = some (t.number, h)) (hgoes : x.begins? = none) :
    ∀ y ∈ past, ¬y.Succeeds t := by
  have hf := filed_run config link clock t.service inputs
  have hbegun : begun past = concluded t.service past ++ [t.number] :=
    (hf.inTurn past x rest hlog).goesOn t.number h ha hgoes
  have hnodup : (begun past).Nodup := by
    have hall := (List.nodup_append.mp (List.nodup_append.mp hf.nodup).1).1
    rw [hlog, begun, List.filterMap_append] at hall
    exact (List.nodup_append.mp hall).1
  rintro y hy ⟨v, hv⟩
  obtain ⟨a, move, p, -, hp, -, hstanding⟩ := makes_of_success hv
  have hconcluded : t.number ∈ concluded t.service past :=
    List.mem_filterMap.mpr ⟨y, hy, by simp [concludes?, hp, hstanding, Standing.ended?]⟩
  rw [hbegun] at hnodup
  exact (List.nodup_append.mp hnodup).2.2 _ hconcluded _ (List.mem_singleton_self _) rfl

/-- What is told of a job's progress in a run is told in its steps. -/
theorem reports_run (t : Ticket) :
    ((idle config link clock).run inputs).reports t =
      ((idle config link clock).log t.service inputs).flatMap (Deed.reports t) := by
  refine filterMap_run config link clock (fun e f hf => ?_) inputs
  cases e with
  | progress job f' =>
      obtain ⟨rfl, _⟩ := Option.ite_none_right_eq_some.mp hf
      simp [Effect.isOf, Effect.job, Effect.isResult]
  | _ => cases hf

theorem succeeds_run :
    ((idle config link clock).run inputs).Succeeds t ↔
      ∃ x ∈ (idle config link clock).log t.service inputs, x.Succeeds t := by
  constructor
  · rintro ⟨v, hv⟩
    obtain ⟨x, hx, hends⟩ := ends_of_result config link clock hv
    exact ⟨x, hx, v, hends⟩
  · rintro ⟨x, hx, v, hends⟩
    exact ⟨v, result_of_ends config link clock hx hends⟩

section Asked

variable (hasked : (submitted inputs t.service)[t.number]? = some task)

include hasked

/-- Nothing is told of a job to which nobody listens. -/
theorem reports_of_unheard (hwants : task.wantsProgress = false) :
    ((idle config link clock).run inputs).reports t = [] := by
  rw [reports_run]
  refine List.flatMap_eq_nil_iff.mpr fun x hx => ?_
  rcases x.beside_or t.number with hbeside | ⟨h, ha⟩
  · exact hbeside.reports
  · obtain ⟨r, h', move, p, hm, hp, -, hf⟩ := follows_run config link clock inputs hx ha
    rw [Deed.reports, shown_of_progress? hp]
    exact hf.mute (by rw [task_of_makes config link clock inputs hasked hx hm, hwants]) t

/-- A step of a job to which somebody listens tells what its move reports. -/
theorem tells_run (hwants : task.wantsProgress = true) {x : Deed}
    (hx : x ∈ (idle config link clock).log t.service inputs) :
    x.Beside t.number ∨ ∃ a move p, x.Makes t.service t.number a move ∧ x.progress? t.service = some p ∧
      p.Carries t a move ∧ p.Tells t move ∧ a.task = task := by
  rcases x.beside_or t.number with hbeside | ⟨h, ha⟩
  · exact .inl hbeside
  · obtain ⟨r, h', move, p, hm, hp, hn, hf⟩ := follows_run config link clock inputs hx ha
    have hticket : r.ticket t.service = t := by rw [Running.ticket, hn]
    have htask := task_of_makes config link clock inputs hasked hx hm
    exact .inr ⟨_, move, p, hm, hp, hticket ▸ hf.carries, hticket ▸ hf.tells (htask ▸ hwants), htask⟩

/-- Every step of a transfer keeps up the account of it. -/
theorem account_each {opened : Prop} {steps : List Deed → List Fraction}
    (hpaces : Paces t task opened steps ((idle config link clock).log t.service inputs))
    (hwants : task.wantsProgress = true) :
    Each (fun past x => account t opened steps (past ++ [x]) = account t opened steps past ++ x.reports t)
      ((idle config link clock).log t.service inputs) := by
  intro past x rest hlog
  have hx : x ∈ (idle config link clock).log t.service inputs :=
    hlog ▸ List.mem_append_right _ List.mem_cons_self
  rcases tells_run config link clock hasked hwants hx with
    hbeside | ⟨a, move, p, hm, hp, hcarries, htells, htask⟩
  · rw [account_beside hbeside (hpaces.beside past x hbeside), hbeside.reports, List.append_nil]
  · have hreports := reports_of_closes htells (hpaces.closes x a move hm htask) hp
    cases hbegins : x.begins? with
    | none =>
        obtain ⟨h, ha⟩ := hm.actor?
        have hpast := unfinished_of_goesOn config link clock hlog ha hbegins
        exact account_goesOn hbegins hpast
          (hpaces.goesOn past x rest hlog a move p hm hbegins hp hcarries) hreports
    | some m =>
        obtain ⟨w, h'', rfl, hnumber, hactivity, rfl⟩ := hm.started_of_begins? hbegins
        rw [hactivity, Task.task_initial] at htask
        have hbefore := beside_of_starts config link clock inputs hlog
        rw [hnumber] at hbefore
        exact account_opens hnumber hbefore (hpaces.steps_eq_nil hbefore)
          (hpaces.opens past w h'' hnumber htask) (htask ▸ hpaces.start _) hreports

/-- A transfer of whose steps there is an account comes on by them. -/
theorem advances_of_paces {opened : Prop} {steps : List Deed → List Fraction}
    (hpaces : Paces t task opened steps ((idle config link clock).log t.service inputs))
    (hwants : task.wantsProgress = true) :
    let log := (idle config link clock).log t.service inputs
    let r := (idle config link clock).run inputs
    Advances (t.number ∈ begun log ∧ opened) (r.Succeeds t) (steps log) (r.reports t) := by
  intro log r
  have hreports : r.reports t = log.flatMap (Deed.reports t) := reports_run config link clock t
  refine .of_course ?_ hpaces.inside fun hno => ?_
  · have hnil : account t opened steps [] = [] := by
      rw [account, hpaces.nil, Fraction.when_of_not fun h => absurd h.1 List.not_mem_nil,
        Fraction.when_of_not]
      · rfl
      · rintro ⟨x, hx, -⟩
        cases hx
    have haccount := flatMap_eq_of_each hnil (account_each config link clock hasked hpaces hwants)
    rw [hreports, haccount, account, ← succeeds_run]
  · rw [hreports]
    refine List.flatMap_eq_nil_iff.mpr fun x hx => ?_
    by_cases hopened : opened
    · refine Beside.reports fun h ha => hno ⟨?_, hopened⟩
      exact begun_of_actor? (filed_run config link clock t.service inputs).inTurn hx ha
    · exact hpaces.unopened hopened x hx

end Asked

end Engine

end GroundLink
