import GroundLink.Number.Binary

/-! Spans of time, in nanoseconds. A span holds less than `2 ^ 64` seconds, and operations that
would leave this range stop at its end. Clocks count microseconds, so a span is cut to those when it
meets a clock. -/

namespace GroundLink

structure Span where
  nanos : Nat
  deriving DecidableEq, Inhabited

namespace Span

def second : Nat := 1000000000

/-- The first length that is no span any more, in nanoseconds. -/
def limit : Nat := UInt64.size * second

def ofParts (seconds nanos : Nat) : Span := ⟨seconds * second + nanos⟩

def ofMillis (ms : Nat) : Span := ⟨ms * 1000000⟩

def seconds (s : Span) : Nat := s.nanos / second

def subsecond (s : Span) : Nat := s.nanos % second

/-- Whole microseconds, held at the largest clock word. -/
def micros (s : Span) : Nat := min (s.nanos / 1000) (UInt64.size - 1)

/-- So many spans one after the other, held at the longest span. -/
def times (s : Span) (n : Nat) : Span := ⟨min (s.nanos * n) (limit - 1)⟩

/-- The span nearest to a number of seconds, a tie to the even nanosecond; none for a negative
number, for one that is no number and for one past the longest span. -/
def ofSeconds? (x : Double) : Option Span :=
  if !x.isFinite || (x.negative && x.word ≠ 0) then none
  else
    let (num, den) := x.ratio
    let nanos := roundEven (num * second) den
    if nanos < limit then some ⟨nanos⟩ else none

end Span

end GroundLink
