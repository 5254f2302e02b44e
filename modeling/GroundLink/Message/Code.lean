import GroundLink.Number.Binary

/-! Code numbers of the message fields. Where the protocols tell values apart the type is an
enumeration; otherwise a code is only carried along and the ones in use have names. -/

namespace GroundLink

/-- A command a vehicle may be asked for. -/
structure CommandId where
  code : UInt16
  deriving DecidableEq, Inhabited

namespace CommandId

def navWaypoint : CommandId := ⟨16⟩

def componentArmDisarm : CommandId := ⟨400⟩

/-- The names of the commands a listing may show, by code. -/
def names : List (UInt16 × String) :=
  [(16, "MAV_CMD_NAV_WAYPOINT"), (20, "MAV_CMD_NAV_RETURN_TO_LAUNCH"), (22, "MAV_CMD_NAV_TAKEOFF"),
    (93, "MAV_CMD_NAV_DELAY"), (176, "MAV_CMD_DO_SET_MODE"), (300, "MAV_CMD_MISSION_START"),
    (5100, "MAV_CMD_NAV_RALLY_POINT"), (31014, "MAV_CMD_USER_5"), (42600, "MAV_CMD_DO_WINCH")]

def name (c : CommandId) : String := (names.lookup c.code).getD s!"MAV_CMD_{c.code.toNat}"

end CommandId

structure Frame where
  code : UInt8
  deriving DecidableEq, Inhabited

/-- Latitude, longitude and altitude above home. -/
def Frame.globalRelativeAlt : Frame := ⟨3⟩

/-- Which of a vehicle's lists a message is about. -/
structure MissionType where
  code : UInt8
  deriving DecidableEq, Inhabited

def MissionType.mission : MissionType := ⟨0⟩

/-- The flight stack a heartbeat names. -/
structure Firmware where
  code : UInt8
  deriving DecidableEq, Inhabited

def Firmware.ardupilot : Firmware := ⟨3⟩

def Firmware.px4 : Firmware := ⟨12⟩

inductive CommandResult
  | accepted
  | temporarilyRejected
  | denied
  | unsupported
  | failed
  | inProgress
  | cancelled
  | other (code : UInt8)
  deriving DecidableEq, Inhabited

namespace CommandResult

def ofCode (code : UInt8) : CommandResult :=
  match code.toNat with
  | 0 => accepted
  | 1 => temporarilyRejected
  | 2 => denied
  | 3 => unsupported
  | 4 => failed
  | 5 => inProgress
  | 6 => cancelled
  | _ => other code

def code : CommandResult → UInt8
  | accepted => 0
  | temporarilyRejected => 1
  | denied => 2
  | unsupported => 3
  | failed => 4
  | inProgress => 5
  | cancelled => 6
  | other code => code

end CommandResult

inductive MissionResult
  | accepted
  | error
  | unsupportedFrame
  | unsupported
  | noSpace
  | invalid
  | invalidParam (index : Fin 7)
  | invalidSequence
  | denied
  | operationCancelled
  deriving DecidableEq, Inhabited

namespace MissionResult

/-- The results in the order of their codes. -/
def all : List MissionResult :=
  [accepted, error, unsupportedFrame, unsupported, noSpace, invalid] ++ (List.finRange 7).map invalidParam
    ++ [invalidSequence, denied, operationCancelled]

def ofCode? (code : Nat) : Option MissionResult := all[code]?

def code : MissionResult → Nat
  | accepted => 0
  | error => 1
  | unsupportedFrame => 2
  | unsupported => 3
  | noSpace => 4
  | invalid => 5
  | invalidParam index => 6 + index
  | invalidSequence => 13
  | denied => 14
  | operationCancelled => 15

theorem ofCode?_code (r : MissionResult) : ofCode? r.code = some r := by
  cases r with
  | invalidParam index => revert index; decide
  | _ => decide

end MissionResult

end GroundLink
