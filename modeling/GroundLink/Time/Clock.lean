import GroundLink.Time.Span

/-! A clock that counts microseconds in a 64-bit word and moves only when it is told to. -/

namespace GroundLink

/-- A reading in microseconds. -/
abbrev Instant := UInt64

namespace Instant

/-- The reading a span after `now`, held at the last one. -/
def after (now : Instant) (s : Span) : Instant := UInt64.ofNat (min (now.toNat + s.micros) (UInt64.size - 1))

/-- Microseconds from `past` to `now`; none have passed since a later reading. -/
def since (now past : Instant) : Nat := now.toNat - past.toNat

/-- The reading so many microseconds on; the word wraps around. -/
def advance (now : Instant) (us : UInt64) : Instant := now + us

/-- The reading a span on, cut to microseconds; the word wraps around. -/
def advanceSpan (now : Instant) (s : Span) : Instant := now + UInt64.ofNat s.micros

theorem toNat_after (now : Instant) (s : Span) :
    (after now s).toNat = min (now.toNat + s.micros) (UInt64.size - 1) := by
  simp only [after, UInt64.toNat_ofNat', UInt64.size]
  omega

theorem le_after (now : Instant) (s : Span) : now ≤ after now s := by
  rw [UInt64.le_iff_toNat_le, toNat_after]
  have := now.toNat_lt_size
  omega

end Instant

end GroundLink
