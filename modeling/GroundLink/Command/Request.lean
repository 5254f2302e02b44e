import GroundLink.Autopilot
import GroundLink.Message.Basic

/-! Commands as they are asked for. A parameter a command does not use is reserved; what goes out in
its place depends on the flight stack. -/

namespace GroundLink

inductive Param
  | value (x : Single)
  | reserved
  deriving DecidableEq, Inhabited

/-- What is sent for a parameter: zero to ArduPilot and "not a number" to all others if it is reserved. -/
def Param.resolve (autopilot : Autopilot) : Param → Single
  | value x => x
  | reserved => if autopilot = .ardupilot then Single.zero else Single.quietNaN

def Address.pilotOf (system : UInt8) : Address := ⟨system, 1⟩

structure LongRequest where
  target : Address
  command : CommandId
  confirmation : UInt8
  params : Vector Param 7
  deriving DecidableEq, Inhabited

namespace LongRequest

def blank (target : Address) (command : CommandId) : LongRequest :=
  ⟨target, command, 0, Vector.replicate 7 .reserved⟩

/-- Sets a parameter, counted from one; there is none at any other number. -/
def withParam (r : LongRequest) (number : Nat) (p : Param) : LongRequest :=
  if number = 0 then r else { r with params := r.params.setIfInBounds (number - 1) p }

def arm (system : UInt8) (on : Bool) : LongRequest :=
  (blank (.pilotOf system) .componentArmDisarm).withParam 1 (.value (Single.ofInt (if on then 1 else 0)))

end LongRequest

structure IntRequest where
  target : Address
  frame : Frame
  command : CommandId
  current : UInt8
  autocontinue : UInt8
  params : Vector Param 4
  x : Int32
  y : Int32
  z : Param
  deriving DecidableEq, Inhabited

/-- A command in either encoding. -/
inductive Request
  | long (r : LongRequest)
  | int (r : IntRequest)
  deriving DecidableEq, Inhabited

namespace Request

def command : Request → CommandId
  | long r => r.command
  | int r => r.command

def target : Request → Address
  | long r => r.target
  | int r => r.target

def message (autopilot : Autopilot) : Request → Message
  | long r => .commandLong ⟨r.command, r.confirmation, r.target, r.params.map (Param.resolve autopilot)⟩
  | int r => .commandInt
      { command := r.command, frame := r.frame, current := r.current, autocontinue := r.autocontinue
        target := r.target, params := r.params.map (Param.resolve autopilot)
        x := r.x, y := r.y, z := r.z.resolve autopilot }

end Request

end GroundLink
