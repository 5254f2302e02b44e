import Mathlib.Data.List.Basic
import GroundLink.Time.Timers

/-! The table of timers: what arming, disarming and giving more time do to the timers in it. -/

namespace GroundLink.Timers

variable {τ : Type}

@[simp] theorem add_armed (t : Timers τ) (now : Instant) (span : Span) (tag : τ) :
    (t.add now span tag).armed = t.armed ++ [⟨t.issued, now.after span, span, tag⟩] := rfl

theorem mem_remove {t : Timers τ} {c : Cookie} {x : Timer τ} :
    x ∈ (t.remove c).armed ↔ x ∈ t.armed ∧ x.cookie ≠ c := by
  simp [remove]

/-- A timer that was given more time differs from what it was in its deadline only. -/
theorem mem_refresh {t : Timers τ} {now : Instant} {c : Cookie} {x : Timer τ}
    (h : x ∈ (t.refresh now c).armed) :
    ∃ y ∈ t.armed, x.cookie = y.cookie ∧ x.tag = y.tag ∧ x.span = y.span ∧
      (x.deadline = y.deadline ∨ x.deadline = now.after y.span) := by
  obtain ⟨y, hy, rfl⟩ := List.mem_map.mp h
  by_cases hc : y.cookie = c
  · exact ⟨y, hy, by simp [hc]⟩
  · exact ⟨y, hy, by simp [hc]⟩

theorem mem_refresh_of_mem {t : Timers τ} (now : Instant) (c : Cookie) {y : Timer τ} (h : y ∈ t.armed) :
    ∃ x ∈ (t.refresh now c).armed, x.cookie = y.cookie ∧ x.tag = y.tag := by
  refine ⟨_, List.mem_map_of_mem h, ?_⟩
  by_cases hc : y.cookie = c <;> simp [hc]

theorem cookies_refresh (t : Timers τ) (now : Instant) (c : Cookie) :
    (t.refresh now c).armed.map (·.cookie) = t.armed.map (·.cookie) := by
  rw [refresh, List.map_map]
  apply List.map_congr_left
  intro x _
  by_cases hc : x.cookie = c <;> simp [hc]

theorem cookies_remove (t : Timers τ) (c : Cookie) :
    ((t.remove c).armed.map (·.cookie)).Sublist (t.armed.map (·.cookie)) :=
  List.filter_sublist.map _

theorem mem_of_first? {l : List (Timer τ)} {x : Timer τ} (h : first? l = some x) : x ∈ l := by
  induction l generalizing x with
  | nil => cases h
  | cons y rest ih =>
      rw [first?] at h
      cases hr : first? rest with
      | none =>
          simp only [hr, Option.some.injEq] at h
          exact h ▸ List.mem_cons_self
      | some z =>
          simp only [hr] at h
          by_cases hb : z.before y = true
          · rw [if_pos hb] at h
            exact List.mem_cons_of_mem _ (ih (hr.trans h))
          · rw [if_neg hb, Option.some.injEq] at h
            exact h ▸ List.mem_cons_self

theorem armed_of_due? {t : Timers τ} {now : Instant} {horizon : Nat} {x : Timer τ}
    (h : t.due? now horizon = some x) : x ∈ t.armed ∧ x.deadline ≤ now := by
  have hx := mem_of_first? h
  simp only [List.mem_filter, Bool.and_eq_true, decide_eq_true_eq] at hx
  exact ⟨hx.1, hx.2.2⟩

theorem old_of_due? {t : Timers τ} {now : Instant} {horizon : Nat} {x : Timer τ}
    (h : t.due? now horizon = some x) :
    x.cookie < horizon := by
  have hx := mem_of_first? h
  simp only [List.mem_filter, Bool.and_eq_true, decide_eq_true_eq] at hx
  exact hx.2.1

theorem first?_eq_none_iff {l : List (Timer τ)} : first? l = none ↔ l = [] := by
  cases l with
  | nil => exact ⟨fun _ => rfl, fun _ => rfl⟩
  | cons x rest =>
      refine ⟨fun h => ?_, fun h => (by cases h)⟩
      rw [first?] at h
      cases hr : first? rest with
      | none => simp [hr] at h
      | some y => by_cases hb : y.before x = true <;> simp [hr, hb] at h

theorem not_due_of_due?_none {t : Timers τ} {now : Instant} {horizon : Nat} (h : t.due? now horizon = none)
    {x : Timer τ} (hx : x ∈ t.armed) (hold : x.cookie < horizon) : ¬x.deadline ≤ now := by
  intro hdue
  have hmem : x ∈ t.armed.filter fun x => x.cookie < horizon && x.deadline ≤ now := by simp [hx, hold, hdue]
  rw [first?_eq_none_iff.mp h] at hmem
  exact absurd hmem List.not_mem_nil

theorem size_remove_lt {t : Timers τ} {x : Timer τ} (hx : x ∈ t.armed) : (t.remove x.cookie).size < t.size :=
  List.length_filter_lt_length_iff_exists.mpr ⟨x, hx, by simp⟩

/-- A pass that arms nothing leaves no timer of before that is due. -/
theorem due?_passFrom {ω : Type} {now : Instant} {horizon : Nat}
    {fire : Timer τ → Timers τ × ω → Timers τ × ω} (hfire : ∀ x t w, (fire x (t, w)).1 = t) (fuel : Nat) :
    ∀ (t : Timers τ) (w : ω), t.size ≤ fuel →
      (passFrom now horizon fire fuel (t, w)).1.due? now horizon = none := by
  induction fuel with
  | zero =>
      intro t w hsize
      have hnone : t.armed = [] := List.length_eq_zero_iff.mp (Nat.le_zero.mp hsize)
      rw [passFrom, due?, hnone]
      rfl
  | succ fuel ih =>
      intro t w hsize
      rw [passFrom]
      cases hd : t.due? now horizon with
      | none => exact hd
      | some x =>
          have hlt := size_remove_lt (armed_of_due? hd).1
          have hrest := ih (t.remove x.cookie) (fire x (t.remove x.cookie, w)).2 (by omega)
          have hpair : fire x (t.remove x.cookie, w) =
              (t.remove x.cookie, (fire x (t.remove x.cookie, w)).2) :=
            Prod.ext (hfire _ _ _) rfl
          rw [← hpair] at hrest
          exact hrest

end GroundLink.Timers
