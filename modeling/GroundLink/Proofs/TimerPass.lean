import Mathlib.Data.Prod.Lex
import GroundLink.Proofs.TimerScene

/-! One pass. Whatever the owners of the timers do while it runs, it comes to its end after no more timers
than were armed when it began, none of those is left that was due at its reading, and they fire in the order
of their deadlines and, where these are the same, of their age. -/

namespace GroundLink.Timers

open Relation

variable {τ ω : Type} {now : Instant} {horizon : Nat}

/-- The place of a timer in the order of firing. -/
def rank (x : Timer τ) : Nat ×ₗ Nat := toLex (x.deadline.toNat, x.cookie)

section
variable {l : List (Timer τ)} {x y : Timer τ}

theorem rank_lt_iff : rank x < rank y ↔ x.deadline < y.deadline ∨
    (x.deadline = y.deadline ∧ x.cookie < y.cookie) := by
  rw [rank, rank, Prod.Lex.toLex_lt_toLex, UInt64.toNat_inj, UInt64.lt_iff_toNat_lt]

theorem rank_le_iff : rank x ≤ rank y ↔ x.deadline < y.deadline ∨
    (x.deadline = y.deadline ∧ x.cookie ≤ y.cookie) := by
  rw [rank, rank, Prod.Lex.toLex_le_toLex, UInt64.toNat_inj, UInt64.lt_iff_toNat_lt]

theorem before_iff : x.before y = true ↔ rank x < rank y := by
  rw [rank_lt_iff]
  simp [Timer.before]

theorem rank_le_of_first? (h : first? l = some x) (hy : y ∈ l) : rank x ≤ rank y := by
  induction l generalizing x with
  | nil => cases h
  | cons z rest ih =>
      rw [first?] at h
      cases hr : first? rest with
      | none =>
          rw [first?_eq_none_iff.mp hr, List.mem_singleton] at hy
          simp only [hr, Option.some.injEq] at h
          rw [hy, h]
      | some w =>
          simp only [hr] at h
          by_cases hb : w.before z = true
          · rw [if_pos hb, Option.some.injEq] at h
            subst h
            rcases List.mem_cons.mp hy with rfl | hmem
            · exact (before_iff.mp hb).le
            · exact ih hr hmem
          · rw [if_neg hb, Option.some.injEq] at h
            subst h
            rcases List.mem_cons.mp hy with rfl | hmem
            · exact le_refl _
            · exact (not_lt.mp fun hlt => hb (before_iff.mpr hlt)).trans (ih hr hmem)

/-- The timer that fires comes first of those that are due and of before the pass. -/
theorem rank_le_of_due? {t : Timers τ} {now : Instant} {horizon : Nat} (h : t.due? now horizon = some x)
    (hy : y ∈ t.armed) (hold : y.cookie < horizon) (hdue : y.deadline ≤ now) : rank x ≤ rank y :=
  rank_le_of_first? h (by simp [hy, hold, hdue])

end

/-- The loop of a pass, with nothing that bounds it: `Loops now horizon fire s s'` if it ends
and turns `s` into `s'`. -/
inductive Loops (now : Instant) (horizon : Nat) (fire : Timer τ → Timers τ × ω → Timers τ × ω) :
    Timers τ × ω → Timers τ × ω → Prop
  | done {t : Timers τ} {w : ω} (h : t.due? now horizon = none) : Loops now horizon fire (t, w) (t, w)
  | next {t : Timers τ} {w : ω} {x : Timer τ} {s : Timers τ × ω} (h : t.due? now horizon = some x)
      (rest : Loops now horizon fire (fire x (t.remove x.cookie, w)) s) : Loops now horizon fire (t, w) s

/-- The number of armed timers that a pass may still fire. -/
def old (horizon : Nat) (t : Timers τ) : Nat := t.armed.countP (·.cookie < horizon)

theorem old_le_size (t : Timers τ) : old horizon t ≤ t.size := List.countP_le_length

theorem due?_of_old_eq_zero {t : Timers τ} (h : old horizon t = 0) : t.due? now horizon = none := by
  rw [due?, first?_eq_none_iff, List.filter_eq_nil_iff]
  intro x hx
  have hyoung := List.countP_eq_zero.mp h x hx
  simp only [decide_eq_true_eq] at hyoung
  simp [hyoung]

theorem old_remove_le (t : Timers τ) (c : Cookie) : old horizon (t.remove c) ≤ old horizon t :=
  List.filter_sublist.countP_le

theorem old_remove_lt {t : Timers τ} {x : Timer τ} (h : t.due? now horizon = some x) :
    old horizon (t.remove x.cookie) < old horizon t := by
  have hx : x ∈ t.armed := (armed_of_due? h).1
  have hpart := List.countP_eq_countP_filter_add t.armed (·.cookie < horizon) (·.cookie ≠ x.cookie)
  have hpos : 0 < ((t.armed.filter fun y => !decide (y.cookie ≠ x.cookie))).countP (·.cookie < horizon) :=
    List.countP_pos_iff.mpr ⟨x, by simp [hx], by simp [old_of_due? h]⟩
  change (t.armed.filter (·.cookie ≠ x.cookie)).countP (·.cookie < horizon) <
    t.armed.countP (·.cookie < horizon)
  omega

/-- Nothing that happens makes a timer of before the pass. -/
theorem old_change (t : Timers τ) (clock : Instant) (i : Incident τ) (h : horizon ≤ t.issued) :
    horizon ≤ (t.change clock i).issued ∧ old horizon (t.change clock i) ≤ old horizon t := by
  cases i with
  | added c span tag =>
      have hnew : ¬t.issued < horizon := by omega
      refine ⟨Nat.le_succ_of_le h, ?_⟩
      change (t.armed ++ [_]).countP _ ≤ _
      rw [List.countP_append, List.countP_singleton, if_neg (by simpa using hnew)]
      exact le_refl _
  | refreshed c =>
      have hcookies := congrArg (List.countP (· < horizon)) (cookies_refresh t clock c)
      rw [List.countP_map, List.countP_map] at hcookies
      exact ⟨h, hcookies.le⟩
  | removed c => exact ⟨h, old_remove_le t c⟩
  | fired x => exact ⟨h, old_remove_le t x.cookie⟩
  | clockSet | began | ended => exact ⟨h, le_refl _⟩

theorem old_moves {q : Sweep} {s s' : Scene τ} (h : ReflTransGen (Scene.Moves q) s s')
    (hissued : horizon ≤ s.1.issued) :
    horizon ≤ s'.1.issued ∧ old horizon s'.1 ≤ old horizon s.1 := by
  induction h with
  | refl => exact ⟨hissued, le_refl _⟩
  | tail _ hstep ih =>
      obtain ⟨m, hnext, -, rfl⟩ := hstep
      obtain ⟨hissued', hold⟩ := old_change _ m.clock m.incident ih.1
      rw [← hnext.table] at hissued' hold
      exact ⟨hissued', hold.trans ih.2⟩

theorem old_fire (owners : Owners τ) (x : Timer τ) (s : Scene τ) (hissued : horizon ≤ s.1.issued) :
    horizon ≤ (s.fire owners x).1.issued ∧ old horizon (s.fire owners x).1 ≤ old horizon s.1 := by
  have hmoves := Scene.moves_performAll ⟨0, horizon⟩ (owners x (s.note (.fired x))) (s.note (.fired x))
  have hold := old_moves hmoves hissued
  exact hold

/-- A loop with as many rounds as there are timers that it may fire comes to its end, if what is done when
one fires makes no timer of before the pass. -/
theorem loops_passFrom {fire : Timer τ → Timers τ × ω → Timers τ × ω}
    (hfire : ∀ x s, horizon ≤ s.1.issued → horizon ≤ (fire x s).1.issued ∧
      old horizon (fire x s).1 ≤ old horizon s.1)
    (fuel : Nat) (s : Timers τ × ω) (hissued : horizon ≤ s.1.issued) (hfuel : old horizon s.1 ≤ fuel) :
    Loops now horizon fire s (passFrom now horizon fire fuel s) := by
  induction fuel generalizing s with
  | zero => exact .done (due?_of_old_eq_zero (Nat.le_zero.mp hfuel))
  | succ fuel ih =>
      obtain ⟨t, w⟩ := s
      rw [passFrom]
      cases hd : t.due? now horizon with
      | none => exact .done hd
      | some x =>
          have hlt : old horizon (t.remove x.cookie) < old horizon t := old_remove_lt hd
          have hfuel : old horizon t ≤ fuel + 1 := hfuel
          obtain ⟨hissued', hold⟩ := hfire x (t.remove x.cookie, w) hissued
          exact .next hd
            (ih _ hissued' (hold.trans (by change old horizon (t.remove x.cookie) ≤ fuel; omega)))

theorem Loops.due? {fire : Timer τ → Timers τ × ω → Timers τ × ω} {s s' : Timers τ × ω}
    (h : Loops now horizon fire s s') : s'.1.due? now horizon = none := by
  induction h with
  | done h => exact h
  | next _ _ ih => exact ih

/-- What is known of a timer that fired in a pass and of one that fires after it or is still to fire. -/
structure Precedes (now : Instant) (during : List (Moment τ)) (x y : Timer τ) : Prop where
  due : x.deadline ≤ now
  sooner : (∀ m ∈ during, now ≤ m.clock) → x.deadline ≤ y.deadline
  older : x.deadline = y.deadline → (∀ m ∈ during, m.incident ≠ .refreshed y.cookie) → x.cookie < y.cookie

theorem Precedes.concat {during : List (Moment τ)} {x y : Timer τ} (h : Precedes now during x y)
    (m : Moment τ) :
    Precedes now (during ++ [m]) x y :=
  ⟨h.due, fun hm => h.sooner fun n hn => hm n (List.mem_append_left _ hn),
    fun heq hm => h.older heq fun n hn => hm n (List.mem_append_left _ hn)⟩

/-- Where a pass stands. `during` is what has happened in it, `budget` the number of timers of before it. -/
structure Going (q : Sweep) (budget : Nat) (during : List (Moment τ)) (s : Scene τ) : Prop where
  issued : q.horizon ≤ s.1.issued
  counted : (fired during).length + old q.horizon s.1 ≤ budget
  order : (fired during).Pairwise (Precedes q.now during)
  pending : ∀ x ∈ fired during, ∀ y ∈ s.1.armed, y.cookie < q.horizon → Precedes q.now during x y

section
variable {q : Sweep} {budget : Nat} {during : List (Moment τ)} {s s' : Scene τ} {m : Moment τ} {x y : Timer τ}

/-- What fired before a moment still precedes what may fire after it. -/
theorem Going.pending_next (h : Going q budget during s) (hnext : s.Next (some q) m) (hx : x ∈ fired during)
    (hy : y ∈ m.table.armed) (hold : y.cookie < q.horizon) : Precedes q.now (during ++ [m]) x y := by
  rw [hnext.table] at hy
  rcases armed_of_change hy with ⟨hy, -, -⟩ | ⟨c, span, tag, -, rfl⟩ | ⟨z, hz, hm, rfl⟩
  · exact (h.pending x hx y hy hold).concat m
  · exact absurd hold (Nat.not_lt.mpr h.issued)
  · have hdue := (h.pending x hx z hz hold).due
    have hlast : m ∈ during ++ [m] := List.mem_append_right _ List.mem_cons_self
    refine ⟨hdue, fun hclock => ?_, fun _ hkept => absurd hm (hkept m hlast)⟩
    exact UInt64.le_trans (UInt64.le_trans hdue (hclock m hlast)) (Instant.le_after _ _)

/-- A timer that fires precedes all that may still fire. -/
theorem precedes_of_due? {t : Timers τ} (hx : t.due? q.now q.horizon = some x) (hy : y ∈ t.armed)
    (hne : y.cookie ≠ x.cookie) (hold : y.cookie < q.horizon) : Precedes q.now during x y := by
  have hdue : x.deadline ≤ q.now := (armed_of_due? hx).2
  by_cases hydue : y.deadline ≤ q.now
  · rcases rank_le_iff.mp (rank_le_of_due? hx hy hold hydue) with hlt | ⟨heq, hle⟩
    · exact ⟨hdue, fun _ => UInt64.le_of_lt hlt, fun heq _ => absurd heq (UInt64.ne_of_lt hlt)⟩
    · exact ⟨hdue, fun _ => UInt64.le_of_eq heq, fun _ _ => lt_of_le_of_ne hle (Ne.symm hne)⟩
  · have hlt : x.deadline < y.deadline := UInt64.lt_of_le_of_lt hdue (UInt64.not_le.mp hydue)
    exact ⟨hdue, fun _ => UInt64.le_of_lt hlt, fun heq _ => absurd heq (UInt64.ne_of_lt hlt)⟩

theorem Going.quiet (h : Going q budget during s) (hnext : s.Next (some q) m)
    (hquiet : ∀ x, m.incident ≠ .fired x) :
    Going q budget (during ++ [m]) (s.after m) := by
  have hsame : fired (during ++ [m]) = fired during := by
    cases hm : m.incident with
    | fired x => exact absurd hm (hquiet x)
    | _ => rw [fired_concat, hm]; exact List.append_nil _
  obtain ⟨hissued, hold⟩ := old_change s.1 m.clock m.incident h.issued
  rw [← hnext.table] at hissued hold
  refine ⟨hissued, ?_, ?_, ?_⟩
  · rw [hsame]
    exact (Nat.add_le_add_left hold _).trans h.counted
  · rw [hsame]
    exact h.order.imp fun hp => hp.concat m
  · rw [hsame]
    exact fun x hx y hy => h.pending_next hnext hx hy

theorem Going.fires (h : Going q budget during s) (hnext : s.Next (some q) m) (hm : m.incident = .fired x) :
    Going q budget (during ++ [m]) (s.after m) := by
  have hmore : fired (during ++ [m]) = fired during ++ [x] := by
    rw [fired_concat, hm]
    rfl
  have htable : m.table = s.1.remove x.cookie := by
    rw [hnext.table, hm]
    rfl
  obtain ⟨_, ⟨⟩, hx⟩ := hnext.due x hm
  have hmem : x ∈ s.1.armed := (armed_of_due? hx).1
  refine ⟨?_, ?_, ?_, ?_⟩
  · change _ ≤ m.table.issued
    rw [htable]
    exact h.issued
  · have hlt : old q.horizon (s.1.remove x.cookie) < old q.horizon s.1 := old_remove_lt hx
    have hcounted := h.counted
    change _ + old q.horizon m.table ≤ _
    rw [hmore, htable, List.length_append, List.length_singleton]
    omega
  · rw [hmore, List.pairwise_append]
    refine ⟨h.order.imp fun hp => hp.concat m, List.pairwise_singleton _ _, fun y hy z hz => ?_⟩
    rw [List.mem_singleton.mp hz]
    exact (h.pending y hy x hmem (old_of_due? hx)).concat m
  · rw [hmore]
    intro y hy z hz hold
    rcases List.mem_append.mp hy with hy | hy
    · exact h.pending_next hnext hy hz hold
    · change z ∈ m.table.armed at hz
      rw [htable] at hz
      rw [List.mem_singleton.mp hy]
      exact precedes_of_due? hx (mem_remove.mp hz).1 (mem_remove.mp hz).2 hold

theorem Going.step (h : Going q budget during s) (hnext : s.Next (some q) m) :
    Going q budget (during ++ [m]) (s.after m) := by
  by_cases hfired : ∃ x, m.incident = .fired x
  · obtain ⟨x, hx⟩ := hfired
    exact h.fires hnext hx
  · exact h.quiet hnext fun x hx => hfired ⟨x, hx⟩

theorem going_of_moves {past : List (Moment τ)} (hpast : s.2.past = past ++ during)
    (h : Going q budget during s) (hmoves : ReflTransGen (Scene.Moves q) s s') :
    ∃ during', s'.2.past = past ++ during' ∧ Going q budget during' s' := by
  induction hmoves with
  | refl => exact ⟨during, hpast, h⟩
  | tail _ hstep ih =>
      obtain ⟨during', hpast', h'⟩ := ih
      obtain ⟨m, hnext, -, rfl⟩ := hstep
      exact ⟨during' ++ [m], by rw [Scene.after, hpast', List.append_assoc], h'.step hnext⟩

end

/-- What a pass comes to that began with `t` and `w` and left `s`; `during` is what happened in it. -/
structure Passed (owners : Owners τ) (t : Timers τ) (w : World τ) (s : Scene τ)
    (during : List (Moment τ)) : Prop where
  past : s.2.past = w.past ++ during
  /-- The loop ends, with no bound given to it. -/
  ends : Loops w.clock t.issued (Scene.fire owners) (t, w) s
  bounded : (fired during).length ≤ t.size
  /-- What was there before the pass and is still armed is not due. -/
  complete : ∀ x ∈ s.1.armed, t.contains x.cookie = true → w.clock < x.deadline
  /-- Deadlines never decrease, unless the clock was set back behind the reading of the pass. -/
  ordered : (∀ m ∈ during, w.clock ≤ m.clock) → (fired during).Pairwise (·.deadline ≤ ·.deadline)
  /-- Of timers with the same deadline the older fires first, unless the other was given its span again. -/
  aged : (fired during).Pairwise fun x y =>
    x.deadline = y.deadline → (∀ m ∈ during, m.incident ≠ .refreshed y.cookie) → x.cookie < y.cookie

/-- Every pass comes to this, over any table that has handed out the cookies of its timers. -/
theorem exists_passed (owners : Owners τ) (t : Timers τ) (w : World τ)
    (hissued : ∀ x ∈ t.armed, x.cookie < t.issued) :
    ∃ during, Passed owners t w (pass w.clock (Scene.fire owners) (t, w)) during := by
  have hstart : Going ⟨w.clock, t.issued⟩ t.size [] (t, w) :=
    ⟨le_refl _, by simpa [fired] using old_le_size t, List.Pairwise.nil,
      fun _ hx => absurd hx List.not_mem_nil⟩
  have hloops : Loops w.clock t.issued (Scene.fire owners) (t, w) (pass w.clock (Scene.fire owners) (t, w)) :=
    loops_passFrom (old_fire owners) _ _ (le_refl _) (old_le_size t)
  have hpast : w.past = w.past ++ [] := (List.append_nil _).symm
  obtain ⟨during, hpast, hgoing⟩ :=
    going_of_moves hpast hstart (Scene.moves_passFrom ⟨w.clock, t.issued⟩ owners t.size (t, w))
  refine ⟨during, hpast, hloops, ?_, ?_, ?_, ?_⟩
  · exact (Nat.le_add_right _ _).trans hgoing.counted
  · intro x hx hcontains
    obtain ⟨y, hy, hcookie⟩ := List.any_eq_true.mp hcontains
    have hold : x.cookie < t.issued := of_decide_eq_true hcookie ▸ hissued y hy
    exact UInt64.not_le.mp (not_due_of_due?_none hloops.due? hx hold)
  · exact fun hclock => hgoing.order.imp fun hp => hp.sooner hclock
  · exact hgoing.order.imp fun hp => hp.older

/-- Three timers that are due at 10, 5 and 10. -/
def trio : Timers Unit := ((Timers.empty.add 0 ⟨10000⟩ ()).add 0 ⟨5000⟩ ()).add 0 ⟨10000⟩ ()

/-- The owner of the second timer of the trio arms one that is due at once, and refreshes the first. -/
def restless : Owners Unit := fun x _ => if x.cookie = 1 then [.add ⟨0⟩ (), .refresh 0] else []

theorem exists_passed_trio :
    (∀ x ∈ trio.armed, x.cookie < trio.issued) ∧
      ∃ during, Passed restless trio ⟨10, []⟩ (pass 10 (Scene.fire restless) (trio, ⟨10, []⟩)) during ∧
        (fired during).map (·.cookie) = [1, 2] := by
  have hissued : ∀ x ∈ trio.armed, x.cookie < trio.issued := by decide +kernel
  obtain ⟨during, h⟩ := exists_passed restless trio ⟨10, []⟩ hissued
  have hpast : during = (pass 10 (Scene.fire restless) (trio, ⟨10, []⟩)).2.past := h.past.symm
  refine ⟨hissued, during, h, ?_⟩
  rw [hpast]
  decide +kernel

end GroundLink.Timers
