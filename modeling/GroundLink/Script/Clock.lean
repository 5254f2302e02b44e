import GroundLink.Time.Clock

/-! Scripts for a clock that moves only when it is told to. -/

namespace GroundLink.Script

inductive ClockStep
  | advance (us : UInt64)
  | advanceSpan (span : Span)
  | set (now : Instant)
  | since (past : Instant)

structure ClockEntry where
  answer : Option Nat
  now : Instant

def clockStep (now : Instant) : ClockStep → ClockEntry
  | .advance us => ⟨none, now.advance us⟩
  | .advanceSpan span => ⟨none, now.advanceSpan span⟩
  | .set now => ⟨none, now⟩
  | .since past => ⟨some (now.since past), now⟩

def runClock : Instant → List ClockStep → List ClockEntry
  | _, [] => []
  | now, s :: rest =>
    let e := clockStep now s
    e :: runClock e.now rest

end GroundLink.Script
