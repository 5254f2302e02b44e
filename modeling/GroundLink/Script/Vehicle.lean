import GroundLink.Vehicle.Basic

/-! Scripts for a simulated vehicle. -/

namespace GroundLink.Script

inductive VehicleStep
  | handle (peer : Address) (message : Message)
  | handleMission (peer : Address) (message : Message)
  | handleCommand (peer : Address) (message : Message)
  | lose (count : Nat)
  /-- Has so many reports of progress come before the next answer to a command. -/
  | report (count : UInt8)
  | requestLegacy (on : Bool)
  | store (items : List MissionItem) (target : Address)
  | items
  | header
  | heartbeat
  | system

inductive VehicleAnswer
  | nothing
  | messages (list : List Message)
  | message (m : Message)
  | header (h : Header)
  | number (n : Nat)

structure VehicleEntry where
  answer : VehicleAnswer
  vehicle : Vehicle

def vehicleStep (v : Vehicle) : VehicleStep → VehicleEntry
  | .handle peer m =>
    let r := v.handle peer m
    ⟨.messages r.replies, r.state⟩
  | .handleMission peer m =>
    let r := v.mission.handle peer m
    ⟨.messages r.replies, { v with mission := r.state }⟩
  | .handleCommand peer m =>
    let r := v.commands.handle peer m
    ⟨.messages r.replies, { v with commands := r.state }⟩
  | .lose count => ⟨.nothing, { v with losses := count }⟩
  | .report count => ⟨.nothing, { v with commands := { v.commands with reports := count } }⟩
  | .requestLegacy on => ⟨.nothing, { v with mission := { v.mission with legacyRequests := on } }⟩
  | .store items target =>
    ⟨.nothing, { v with mission := v.mission.store (items.map (MissionItem.encode target)) }⟩
  | .items => ⟨.messages (v.mission.items.map .missionItemInt), v⟩
  | .header => ⟨.header v.header, v.counted⟩
  | .heartbeat => ⟨.message v.heartbeat, v⟩
  | .system => ⟨.number v.address.system.toNat, v⟩

def runVehicle : Vehicle → List VehicleStep → List VehicleEntry
  | _, [] => []
  | v, s :: rest =>
    let e := vehicleStep v s
    e :: runVehicle e.vehicle rest

/-- A vehicle after a script. -/
def prepared (v : Vehicle) (setup : List VehicleStep) : Vehicle :=
  setup.foldl (fun v s => (vehicleStep v s).vehicle) v

end GroundLink.Script
