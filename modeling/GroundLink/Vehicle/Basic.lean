import GroundLink.Vehicle.Mission

/-! A simulated vehicle: it answers mission and command traffic that is addressed to it and returns
its answers. It can be told to lose messages, and to answer a command with reports of progress. -/

namespace GroundLink

structure VehicleCommands where
  armed : Bool
  /-- How many reports of progress come before the next answer. -/
  reports : UInt8
  deriving DecidableEq

namespace VehicleCommands

def initial : VehicleCommands := ⟨false, 0⟩

def ack (peer : Address) (command : CommandId) (result : CommandResult) (progress : UInt8) : Message :=
  .commandAck ⟨command, result, progress, 0, peer⟩

/-- Reports of progress, evenly spaced over the hundred percent. -/
def progress (peer : Address) (command : CommandId) (reports : Nat) : List Message :=
  (List.range' 1 reports).map fun step =>
    ack peer command .inProgress (UInt8.ofNat (step * 100 / (reports + 1)))

def armThreshold : Single := Single.ofRatio 1 2

/-- Executes a command; arming and disarming are the only ones known. -/
def execute (v : VehicleCommands) (peer : Address) (command : CommandId) (param1 : Single) :
    Replied VehicleCommands :=
  let reports := progress peer command v.reports.toNat
  let v := { v with reports := 0 }
  if command = .componentArmDisarm then
    ⟨{ v with armed := armThreshold.lt param1 }, reports ++ [ack peer command .accepted 0]⟩
  else ⟨v, reports ++ [ack peer command .unsupported 0]⟩

def handle (v : VehicleCommands) (peer : Address) : Message → Replied VehicleCommands
  | .commandLong m => v.execute peer m.command (m.params.get ⟨0, Nat.succ_pos 6⟩)
  | .commandInt m => v.execute peer m.command (m.params.get ⟨0, Nat.succ_pos 3⟩)
  | _ => ⟨v, []⟩

end VehicleCommands

structure Vehicle where
  address : Address
  firmware : Firmware
  sequence : UInt8
  /-- How many messages are lost before the next is handled. -/
  losses : Nat
  mission : VehicleMission
  commands : VehicleCommands
  deriving DecidableEq

namespace Vehicle

def create (address : Address) : Vehicle := ⟨address, .px4, 0, 0, .initial, .initial⟩

/-- Names the flight stack in heartbeats; ArduPilot also asks for items in the older form. -/
def withFirmware (v : Vehicle) (firmware : Firmware) : Vehicle :=
  { v with firmware, mission := { v.mission with legacyRequests := firmware = .ardupilot } }

def header (v : Vehicle) : Header := ⟨v.address, v.sequence⟩

def counted (v : Vehicle) : Vehicle := { v with sequence := v.sequence + 1 }

def heartbeat (v : Vehicle) : Message :=
  .heartbeat
    { customMode := 0, vehicleType := 10, firmware := v.firmware
      baseMode := if v.commands.armed then 128 else 0, status := 3, version := 3 }

/-- Whether a message is one a vehicle answers and for this vehicle or for all. -/
def isFor (v : Vehicle) (m : Message) : Bool :=
  let answered : Bool :=
    match m with
    | .commandAck _ | .missionRequest _ => false
    | _ => true
  answered && m.target?.any fun target => target.system = 0 || target.system = v.address.system

def handle (v : Vehicle) (peer : Address) (m : Message) : Replied Vehicle :=
  if !v.isFor m then ⟨v, []⟩
  else if 0 < v.losses then ⟨{ v with losses := v.losses - 1 }, []⟩
  else
    match m with
    | .commandLong _ | .commandInt _ =>
      let r := v.commands.handle peer m
      ⟨{ v with commands := r.state }, r.replies⟩
    | _ =>
      let r := v.mission.handle peer m
      ⟨{ v with mission := r.state }, r.replies⟩

end Vehicle

end GroundLink
