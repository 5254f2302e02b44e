import GroundLink.Message.Code

/-! The messages of the command and mission protocols, as both ends see them once they
are taken off the wire. -/

namespace GroundLink

/-- A system on the link and a component of it; zero stands for everyone. -/
structure Address where
  system : UInt8
  component : UInt8
  deriving DecidableEq, Inhabited

/-- Who sent a message, and the running number of it. -/
structure Header where
  sender : Address
  sequence : UInt8
  deriving DecidableEq, Inhabited

structure Heartbeat where
  customMode : UInt32
  vehicleType : UInt8
  firmware : Firmware
  baseMode : UInt8
  status : UInt8
  version : UInt8
  deriving DecidableEq, Inhabited

structure CommandAck where
  command : CommandId
  result : CommandResult
  progress : UInt8
  param2 : Int32
  target : Address
  deriving DecidableEq, Inhabited

structure CommandLong where
  command : CommandId
  confirmation : UInt8
  target : Address
  params : Vector Single 7
  deriving DecidableEq, Inhabited

structure CommandInt where
  command : CommandId
  frame : Frame
  current : UInt8
  autocontinue : UInt8
  target : Address
  params : Vector Single 4
  x : Int32
  y : Int32
  z : Single
  deriving DecidableEq, Inhabited

structure MissionCount where
  count : UInt16
  target : Address
  missionType : MissionType
  deriving DecidableEq, Inhabited

structure MissionRequest where
  seq : UInt16
  target : Address
  missionType : MissionType
  deriving DecidableEq, Inhabited

structure MissionList where
  target : Address
  missionType : MissionType
  deriving DecidableEq, Inhabited

structure MissionSetCurrent where
  seq : UInt16
  target : Address
  deriving DecidableEq, Inhabited

structure MissionCurrent where
  seq : UInt16
  total : UInt16
  state : UInt8
  mode : UInt8
  deriving DecidableEq, Inhabited

structure MissionAck where
  result : MissionResult
  target : Address
  missionType : MissionType
  deriving DecidableEq, Inhabited

structure MissionItemInt where
  seq : UInt16
  frame : Frame
  command : CommandId
  current : UInt8
  autocontinue : UInt8
  target : Address
  params : Vector Single 4
  x : Int32
  y : Int32
  z : Single
  missionType : MissionType
  deriving DecidableEq, Inhabited

inductive Message
  | heartbeat (fields : Heartbeat)
  | commandAck (fields : CommandAck)
  | commandLong (fields : CommandLong)
  | commandInt (fields : CommandInt)
  | missionCount (fields : MissionCount)
  | missionRequest (fields : MissionRequest)
  | missionRequestInt (fields : MissionRequest)
  | missionRequestList (fields : MissionList)
  | missionClearAll (fields : MissionList)
  | missionSetCurrent (fields : MissionSetCurrent)
  | missionCurrent (fields : MissionCurrent)
  | missionAck (fields : MissionAck)
  | missionItemInt (fields : MissionItemInt)
  deriving DecidableEq, Inhabited

/-- What a message is, its fields apart. -/
inductive Kind
  | heartbeat
  | commandAck
  | commandLong
  | commandInt
  | missionCount
  | missionRequest
  | missionRequestInt
  | missionRequestList
  | missionClearAll
  | missionSetCurrent
  | missionCurrent
  | missionAck
  | missionItemInt
  deriving DecidableEq, Inhabited

namespace Kind

/-- Every kind with its name on the wire. -/
def names : List (Kind × String) :=
  [(heartbeat, "HEARTBEAT"), (commandAck, "COMMAND_ACK"), (commandLong, "COMMAND_LONG"),
    (commandInt, "COMMAND_INT"), (missionCount, "MISSION_COUNT"), (missionRequest, "MISSION_REQUEST"),
    (missionRequestInt, "MISSION_REQUEST_INT"), (missionRequestList, "MISSION_REQUEST_LIST"),
    (missionClearAll, "MISSION_CLEAR_ALL"), (missionSetCurrent, "MISSION_SET_CURRENT"),
    (missionCurrent, "MISSION_CURRENT"), (missionAck, "MISSION_ACK"), (missionItemInt, "MISSION_ITEM_INT")]

def name (k : Kind) : String := (names.lookup k).getD ""

def ofName? (s : String) : Option Kind := (names.find? (·.2 = s)).map (·.1)

theorem ofName?_name (k : Kind) : ofName? k.name = some k := by
  cases k <;> rfl

end Kind

namespace Message

def kind : Message → Kind
  | heartbeat _ => .heartbeat
  | commandAck _ => .commandAck
  | commandLong _ => .commandLong
  | commandInt _ => .commandInt
  | missionCount _ => .missionCount
  | missionRequest _ => .missionRequest
  | missionRequestInt _ => .missionRequestInt
  | missionRequestList _ => .missionRequestList
  | missionClearAll _ => .missionClearAll
  | missionSetCurrent _ => .missionSetCurrent
  | missionCurrent _ => .missionCurrent
  | missionAck _ => .missionAck
  | missionItemInt _ => .missionItemInt

/-- Whom a message is for, if it says so. -/
def target? : Message → Option Address
  | heartbeat _ => none
  | commandAck m => some m.target
  | commandLong m => some m.target
  | commandInt m => some m.target
  | missionCount m => some m.target
  | missionRequest m => some m.target
  | missionRequestInt m => some m.target
  | missionRequestList m => some m.target
  | missionClearAll m => some m.target
  | missionSetCurrent m => some m.target
  | missionCurrent _ => none
  | missionAck m => some m.target
  | missionItemInt m => some m.target

end Message

end GroundLink
