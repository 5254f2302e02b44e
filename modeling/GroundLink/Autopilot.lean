import GroundLink.Message.Code

/-! The flight stacks that differ in what the protocols have to send them. -/

namespace GroundLink

inductive Autopilot
  | unknown
  | px4
  | ardupilot
  deriving DecidableEq, Inhabited

namespace Autopilot

def name : Autopilot → String
  | unknown => "unknown"
  | px4 => "px4"
  | ardupilot => "ardupilot"

def ofName? (s : String) : Option Autopilot := [unknown, px4, ardupilot].find? (·.name = s)

theorem ofName?_name (a : Autopilot) : ofName? a.name = some a := by
  cases a <;> rfl

/-- The flight stack a heartbeat tells of, if it is one of those told apart. -/
def ofFirmware? (f : Firmware) : Option Autopilot :=
  if f = .ardupilot then some ardupilot else if f = .px4 then some px4 else none

end Autopilot

end GroundLink
