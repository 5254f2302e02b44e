import Mathlib.Algebra.Order.Field.Basic
import Mathlib.Algebra.Order.Field.Rat
import Mathlib.Algebra.Ring.Parity
import Mathlib.Tactic.FieldSimp
import Mathlib.Tactic.Linarith
import Mathlib.Tactic.NormNum
import Mathlib.Tactic.Positivity
import GroundLink.Config.Basic
import GroundLink.Time.Timers

/-! How the configured time to wait becomes a span and the span a deadline. A double stands for an exact
rational number (`Double.value`); rounding takes it to the nearest nanosecond, a tie to the even one
(`NearestEven`), which determines the result and keeps the order. A valid configuration asks for a positive
number of seconds and no more. So it is honoured below `2 ^ 64` seconds, from where on half a second is waited
instead, and a timer takes time from half a nanosecond below the microsecond on. -/

namespace GroundLink

/-- The exact value of a finite double. -/
def Double.value (x : Double) : ℚ :=
  let (m, e) := Format.double.magnitude x.word
  (if x.negative then -1 else 1) * (m * 2 ^ e)

/-- A natural number is nearest to a rational one; of two as near, the even one. -/
structure NearestEven (q : ℚ) (n : ℕ) : Prop where
  near : |q - n| ≤ 1 / 2
  tie : |q - n| = 1 / 2 → Even n

namespace NearestEven

variable {q q' : ℚ} {n n' : ℕ}

theorem le_add_half (h : NearestEven q n) : q ≤ n + 1 / 2 := by
  have hnear := (abs_le.mp h.near).2
  linarith

theorem sub_half_le (h : NearestEven q n) : (n : ℚ) - 1 / 2 ≤ q := by
  have hnear := (abs_le.mp h.near).1
  linarith

/-- Rounding keeps the order: two numbers that were to change places would both be ties, at neighbours. -/
theorem mono (h : NearestEven q n) (h' : NearestEven q' n') (hle : q ≤ q') : n ≤ n' := by
  by_contra hlt
  have hnext : n' + 1 ≤ n := Nat.lt_of_not_le hlt
  have hcast : (n' : ℚ) + 1 ≤ n := by exact_mod_cast hnext
  have hlow := h.sub_half_le
  have hhigh := h'.le_add_half
  have hneighbour : n = n' + 1 := by
    have hle : (n : ℚ) ≤ n' + 1 := by linarith
    exact le_antisymm (by exact_mod_cast hle) hnext
  have heq : (n : ℚ) = n' + 1 := by exact_mod_cast hneighbour
  have hodd : Even n := h.tie (by rw [show q - n = -(1 / 2) by linarith, abs_neg, abs_of_pos (by norm_num)])
  have heven : Even n' := h'.tie (by rw [show q' - n' = 1 / 2 by linarith, abs_of_pos (by norm_num)])
  rw [hneighbour] at hodd
  exact Nat.even_add_one.mp hodd heven

/-- Just below a number that is even, the rounded number is below it exactly up to the tie. -/
theorem lt_iff_of_even {k : ℕ} (h : NearestEven q n) (hk : Even k) : n < k ↔ 2 * q < 2 * k - 1 := by
  constructor
  · intro hlt
    have hcast : (n : ℚ) + 1 ≤ k := by exact_mod_cast hlt
    have hhigh := h.le_add_half
    apply lt_of_le_of_ne (by linarith)
    intro htie
    have heq : (k : ℚ) = n + 1 := by linarith
    have heven : Even n := h.tie (by rw [show q - n = 1 / 2 by linarith, abs_of_pos (by norm_num)])
    rw [show k = n + 1 by exact_mod_cast heq] at hk
    exact Nat.even_add_one.mp hk heven
  · intro hlt
    have hlow := h.sub_half_le
    have hcast : (n : ℚ) < k := by linarith
    exact_mod_cast hcast

/-- Below the middle between two neighbours the lower one is the nearest, beyond it the upper one, and in the
middle the even one. -/
theorem below_half {f : ℚ} (n : ℕ) (hnonneg : 0 ≤ f) (hhalf : f < 1 / 2) : NearestEven (n + f) n := by
  have habs : |(n : ℚ) + f - n| < 1 / 2 := by
    rw [add_sub_cancel_left, abs_of_nonneg hnonneg]
    exact hhalf
  exact ⟨habs.le, fun h => absurd h habs.ne⟩

theorem above_half {f : ℚ} (n : ℕ) (hhalf : 1 / 2 < f) (hone : f < 1) : NearestEven (n + f) (n + 1) := by
  have habs : |(n : ℚ) + f - (n + 1 : ℕ)| < 1 / 2 := by
    rw [Nat.cast_add_one, abs_lt]
    constructor <;> linarith
  exact ⟨habs.le, fun h => absurd h habs.ne⟩

theorem at_half {n k : ℕ} (hk : Even k) (hn : k = n ∨ k = n + 1) : NearestEven (n + 1 / 2) k := by
  refine ⟨?_, fun _ => hk⟩
  rcases hn with rfl | rfl
  · rw [add_sub_cancel_left, abs_of_pos (by norm_num)]
  · rw [Nat.cast_add_one, abs_le]
    constructor <;> linarith

end NearestEven

section Quotients

variable (num : ℕ) {den : ℕ} (hden : 0 < den)

include hden

theorem div_eq_add_rest : (num : ℚ) / den = (num / den : ℕ) + (num % den : ℕ) / den := by
  have hpos : (den : ℚ) ≠ 0 := by exact_mod_cast hden.ne'
  have hmod : (den : ℚ) * (num / den : ℕ) + (num % den : ℕ) = num := by exact_mod_cast Nat.div_add_mod num den
  field_simp
  linarith

theorem rest_lt_half_iff : ((num % den : ℕ) : ℚ) / den < 1 / 2 ↔ 2 * (num % den) < den := by
  have hpos : (0 : ℚ) < den := by exact_mod_cast hden
  rw [div_lt_div_iff₀ hpos (by norm_num), one_mul, mul_comm]
  exact_mod_cast Iff.rfl

theorem half_lt_rest_iff : 1 / 2 < ((num % den : ℕ) : ℚ) / den ↔ den < 2 * (num % den) := by
  have hpos : (0 : ℚ) < den := by exact_mod_cast hden
  rw [div_lt_div_iff₀ (by norm_num) hpos, one_mul, mul_comm]
  exact_mod_cast Iff.rfl

theorem nearestEven_roundEven : NearestEven (num / den) (roundEven num den) := by
  have hpos : (0 : ℚ) < den := by exact_mod_cast hden
  have hnonneg : (0 : ℚ) ≤ (num % den : ℕ) / den := div_nonneg (Nat.cast_nonneg _) hpos.le
  have hone : ((num % den : ℕ) : ℚ) / den < 1 := by
    rw [div_lt_one hpos]
    exact_mod_cast Nat.mod_lt num hden
  rw [div_eq_add_rest num hden]
  unfold roundEven
  dsimp only
  split
  · rename_i hbelow
    exact .below_half _ hnonneg ((rest_lt_half_iff num hden).mpr hbelow)
  · rename_i hbelow
    split
    · rename_i habove
      exact .above_half _ ((half_lt_rest_iff num hden).mpr habove) hone
    · rename_i habove
      have hhalf : ((num % den : ℕ) : ℚ) / den = 1 / 2 := by
        apply le_antisymm
        · exact not_lt.mp fun h => habove ((half_lt_rest_iff num hden).mp h)
        · exact not_lt.mp fun h => hbelow ((rest_lt_half_iff num hden).mp h)
      rw [hhalf]
      apply NearestEven.at_half
      · rw [Nat.even_iff]
        omega
      · omega

end Quotients

namespace Double

variable {x : Double}

theorem ratio_pos (x : Double) : 0 < x.ratio.2 := by
  unfold ratio
  dsimp only
  split
  · exact Nat.one_pos
  · exact Nat.two_pow_pos _

/-- Without its sign a double is the quotient that is rounded. -/
theorem value_eq_ratio (h : x.negative = false) : x.value = x.ratio.1 / x.ratio.2 := by
  obtain ⟨m, e, hmagnitude⟩ : ∃ m e, Format.double.magnitude x.word = (m, e) := ⟨_, _, rfl⟩
  have hvalue : x.value = m * 2 ^ e := by
    unfold value
    rw [hmagnitude, h]
    simp
  unfold ratio
  rw [hvalue, hmagnitude]
  dsimp only
  by_cases he : 0 ≤ e
  · have hpow : (2 : ℚ) ^ e = 2 ^ e.toNat := by rw [← zpow_natCast, Int.toNat_of_nonneg he]
    rw [if_pos he, hpow]
    simp
  · have hpow : (2 : ℚ) ^ e = (2 ^ (-e).toNat)⁻¹ := by
      rw [← zpow_natCast, Int.toNat_of_nonneg (by omega), zpow_neg, inv_inv]
    rw [if_neg he, hpow]
    simp [div_eq_mul_inv]

theorem magnitude_lt (word : ℕ) : (Format.double.magnitude word).1 < 2 ^ 53 := by
  have hlow : word % Nat.pow 2 Format.double.fraction < 2 ^ 52 := Nat.mod_lt _ (Nat.two_pow_pos 52)
  have hpow : Nat.pow 2 Format.double.fraction = 2 ^ 52 := rfl
  unfold Format.magnitude
  dsimp only
  split <;> omega

theorem magnitude_pos {word : ℕ} (h : 0 < word) : 0 < (Format.double.magnitude word).1 := by
  unfold Format.magnitude
  dsimp only
  split
  · rename_i hfield
    have hsplit := Nat.div_add_mod word (Nat.pow 2 Format.double.fraction)
    rw [hfield, Nat.mul_zero, Nat.zero_add] at hsplit
    omega
  · exact Nat.add_pos_right _ (Nat.two_pow_pos _)

/-- A double is whole or below `2 ^ 53`. -/
theorem ratio_whole_or_lt (x : Double) : x.ratio.2 = 1 ∨ x.ratio.1 < 2 ^ 53 := by
  unfold ratio
  dsimp only
  split
  · exact .inl rfl
  · exact .inr (magnitude_lt x.word)

/-- No double lies between two whole numbers as large as this. -/
theorem value_le_pred (h : x.negative = false) (hlt : x.value < 2 ^ 64) : x.value ≤ 2 ^ 64 - 1 := by
  rw [value_eq_ratio h] at hlt ⊢
  rcases x.ratio_whole_or_lt with hwhole | hsmall
  · rw [hwhole, Nat.cast_one, div_one] at hlt ⊢
    have hnat : x.ratio.1 + 1 ≤ 2 ^ 64 := by exact_mod_cast hlt
    have hcast : (x.ratio.1 : ℚ) + 1 ≤ 2 ^ 64 := by exact_mod_cast hnat
    linarith
  · have hden : (1 : ℚ) ≤ x.ratio.2 := by exact_mod_cast x.ratio_pos
    have hcast : (x.ratio.1 : ℚ) ≤ 2 ^ 53 := by exact_mod_cast hsmall.le
    calc
      (x.ratio.1 : ℚ) / x.ratio.2 ≤ x.ratio.1 := div_le_self (Nat.cast_nonneg _) hden
      _ ≤ 2 ^ 53 := hcast
      _ ≤ 2 ^ 64 - 1 := by norm_num

/-- The nanoseconds nearest to a number of seconds. -/
def nanos (x : Double) : ℕ := roundEven (x.ratio.1 * Span.second) x.ratio.2

theorem nearestEven_nanos (h : x.negative = false) : NearestEven (x.value * 10 ^ 9) x.nanos := by
  have hrounded := nearestEven_roundEven (x.ratio.1 * Span.second) x.ratio_pos
  have hscaled : x.value * 10 ^ 9 = ((x.ratio.1 * Span.second : ℕ) : ℚ) / x.ratio.2 := by
    rw [value_eq_ratio h, Nat.cast_mul, div_mul_eq_mul_div]
    norm_num [Span.second]
  rw [hscaled]
  exact hrounded

/-- The seconds that are a span once they are rounded are those that were one before. -/
theorem nanos_lt_limit_iff (h : x.negative = false) : x.nanos < Span.limit ↔ x.value < 2 ^ 64 := by
  have hnearest := nearestEven_nanos h
  have hlimit : ((Span.limit : ℕ) : ℚ) = 2 ^ 64 * 10 ^ 9 := by norm_num [Span.limit, Span.second]
  constructor
  · intro hlt
    have hcast : (x.nanos : ℚ) + 1 ≤ 2 ^ 64 * 10 ^ 9 := by
      rw [← hlimit]
      exact_mod_cast hlt
    have hhigh := hnearest.le_add_half
    linarith
  · intro hlt
    have hlow := hnearest.sub_half_le
    have hpred := value_le_pred h hlt
    have hcast : (x.nanos : ℚ) < Span.limit := by
      rw [hlimit]
      linarith
    exact_mod_cast hcast

theorem word_pos_of_isPositive (h : x.isPositive) : x.negative = false ∧ 0 < x.word := by
  simp only [isPositive, Bool.and_eq_true, Bool.not_eq_true', decide_eq_true_eq] at h
  exact ⟨h.1.1, Nat.pos_of_ne_zero h.2⟩

theorem value_pos (h : x.isPositive) : 0 < x.value := by
  obtain ⟨hsign, hword⟩ := word_pos_of_isPositive h
  unfold value
  dsimp only
  rw [hsign]
  have hcast : (0 : ℚ) < (Format.double.magnitude x.word).1 := by exact_mod_cast magnitude_pos hword
  have hpow : (0 : ℚ) < 2 ^ (Format.double.magnitude x.word).2 := zpow_pos (by norm_num) _
  simpa using mul_pos hcast hpow

/-- A positive number of seconds is a span below `2 ^ 64`, and that of the nearest nanosecond. -/
theorem ofSeconds?_of_isPositive (hfinite : x.isFinite) (h : x.isPositive) :
    Span.ofSeconds? x = if x.value < 2 ^ 64 then some ⟨x.nanos⟩ else none := by
  obtain ⟨hsign, -⟩ := word_pos_of_isPositive h
  have hguard : (!x.isFinite || (x.negative && x.word ≠ 0)) = false := by
    rw [hfinite, hsign]
    rfl
  unfold Span.ofSeconds?
  rw [hguard]
  simp only [Bool.false_eq_true, if_false]
  exact if_congr (nanos_lt_limit_iff hsign) rfl rfl

end Double

/-- A timer is due at once if it is armed for less than a unit of the clock. -/
theorem Instant.after_le_iff {now : Instant} {s : Span} (h : now.toNat + s.micros < 2 ^ 64) :
    now.after s ≤ now ↔ s.micros = 0 := by
  rw [UInt64.le_iff_toNat_le, Instant.toNat_after]
  have hsize : UInt64.size = 2 ^ 64 := rfl
  omega

namespace Config

variable {c : Config}

theorem timeout_of_valid (h : c.fault? = none) : c.timeout.isFinite ∧ c.timeout.isPositive := by
  unfold fault? at h
  split at h
  · cases h
  · rename_i hgood
    simpa using hgood

theorem timeoutSpan_of_lt (h : c.fault? = none) (hlt : c.timeout.value < 2 ^ 64) :
    c.timeoutSpan = ⟨c.timeout.nanos⟩ := by
  obtain ⟨hfinite, hpositive⟩ := timeout_of_valid h
  rw [timeoutSpan, Double.ofSeconds?_of_isPositive hfinite hpositive, if_pos hlt, Option.getD_some]

theorem timeoutSpan_of_le (h : c.fault? = none) (hle : 2 ^ 64 ≤ c.timeout.value) :
    c.timeoutSpan = .ofMillis 500 := by
  obtain ⟨hfinite, hpositive⟩ := timeout_of_valid h
  rw [timeoutSpan, Double.ofSeconds?_of_isPositive hfinite hpositive, if_neg (not_lt.mpr hle),
    Option.getD_none]

theorem nearestEven_timeoutSpan (h : c.fault? = none) (hlt : c.timeout.value < 2 ^ 64) :
    NearestEven (c.timeout.value * 10 ^ 9) c.timeoutSpan.nanos := by
  rw [timeoutSpan_of_lt h hlt]
  exact Double.nearestEven_nanos (Double.word_pos_of_isPositive (timeout_of_valid h).2).1

/-- The wait is shorter than a microsecond, the unit of the clock. -/
theorem micros_eq_zero_iff (h : c.fault? = none) :
    c.timeoutSpan.micros = 0 ↔ 2 * (c.timeout.value * 10 ^ 9) < 1999 := by
  have hmicros : c.timeoutSpan.micros = 0 ↔ c.timeoutSpan.nanos < 1000 := by
    have hsize : UInt64.size - 1 ≠ 0 := by decide
    unfold Span.micros
    omega
  rw [hmicros]
  rcases lt_or_ge c.timeout.value (2 ^ 64) with hlt | hle
  · rw [(nearestEven_timeoutSpan h hlt).lt_iff_of_even (by decide : Even 1000)]
    norm_num
  · rw [timeoutSpan_of_le h hle]
    constructor
    · intro hshort
      exact absurd hshort (by decide)
    · intro hshort
      linarith

/-- What becomes of the time to wait of a valid configuration. Below `2 ^ 64` seconds it is waited, to the
nearest nanosecond; from there on half a second is. A longer time is no shorter wait, unless only the longer
one is as long as that. A timer armed with it is due at a later reading of the clock, unless the time to wait
is less than 999.5 nanoseconds; then it is due at once. -/
theorem timeout_honoured (c : Config) (hvalid : c.fault? = none) :
    0 < c.timeout.value ∧
      (c.timeout.value < 2 ^ 64 → NearestEven (c.timeout.value * 10 ^ 9) c.timeoutSpan.nanos) ∧
      (2 ^ 64 ≤ c.timeout.value → c.timeoutSpan = .ofMillis 500) ∧
      (∀ c' : Config, c'.fault? = none → c.timeout.value ≤ c'.timeout.value →
        (c'.timeout.value < 2 ^ 64 ∨ 2 ^ 64 ≤ c.timeout.value) → c.timeoutSpan.nanos ≤ c'.timeoutSpan.nanos) ∧
      ∀ {τ : Type} (t : Timers τ) (now : Instant) (tag : τ), now.toNat + c.timeoutSpan.micros < 2 ^ 64 →
        ∃ x, (t.add now c.timeoutSpan tag).armed = t.armed ++ [x] ∧
          (x.deadline ≤ now ↔ 2 * (c.timeout.value * 10 ^ 9) < 1999) := by
  refine ⟨Double.value_pos (timeout_of_valid hvalid).2, nearestEven_timeoutSpan hvalid,
    timeoutSpan_of_le hvalid, ?_, ?_⟩
  · rintro c' hvalid' hle (hlt' | hlong)
    · have hlt : c.timeout.value < 2 ^ 64 := lt_of_le_of_lt hle hlt'
      have hscaled : c.timeout.value * 10 ^ 9 ≤ c'.timeout.value * 10 ^ 9 := by linarith
      exact (nearestEven_timeoutSpan hvalid hlt).mono (nearestEven_timeoutSpan hvalid' hlt') hscaled
    · rw [timeoutSpan_of_le hvalid hlong, timeoutSpan_of_le hvalid' (hlong.trans hle)]
  · intro τ t now tag hbound
    refine ⟨_, rfl, ?_⟩
    exact (Instant.after_le_iff hbound).trans (micros_eq_zero_iff hvalid)

/-- A tenth of a second, which no double is. -/
theorem timeout_honoured_tenth :
    let c := { Config.default with timeout := ⟨0x3fb999999999999a⟩ }
    c.fault? = none ∧ NearestEven (c.timeout.value * 10 ^ 9) 100000000 ∧
      ∃ x, ((Timers.empty (τ := Unit)).add 7 c.timeoutSpan ()).armed = [x] ∧ ¬ x.deadline ≤ 7 := by
  intro c
  have hvalid : c.fault? = none := by decide
  have hlt : c.timeout.value < 2 ^ 64 := by decide +kernel
  have hnanos : c.timeoutSpan.nanos = 100000000 := by decide +kernel
  obtain ⟨-, hnearest, -, -, htimer⟩ := timeout_honoured c hvalid
  obtain ⟨x, harmed, hdue⟩ := htimer (Timers.empty (τ := Unit)) 7 () (by decide +kernel)
  refine ⟨hvalid, hnanos ▸ hnearest hlt, x, harmed, ?_⟩
  rw [hdue]
  decide +kernel

/-- Two valid configurations whose time is not waited: `2 ^ 64` seconds come to half a second, less than a
time below it, and a nanosecond comes to a timer that is due at once. -/
theorem timeout_lost :
    let wait (bits : UInt64) : Config := { Config.default with timeout := ⟨bits⟩ }
    let below := wait 0x43efffffffffffff
    let beyond := wait 0x43f0000000000000
    let short := wait 0x3e112e0be826d695
    (below.fault? = none ∧ beyond.fault? = none ∧ beyond.timeout.value = 2 ^ 64 ∧
      beyond.timeoutSpan = .ofMillis 500 ∧
        below.timeout.value < beyond.timeout.value ∧ beyond.timeoutSpan.nanos < below.timeoutSpan.nanos) ∧
      short.fault? = none ∧ short.timeoutSpan.nanos = 1 ∧
        ((Timers.empty.add 7 short.timeoutSpan ()).due? 7 1).isSome := by
  decide +kernel

end Config

end GroundLink
