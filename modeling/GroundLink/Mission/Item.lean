import GroundLink.Failure
import GroundLink.Message.Basic

/-! Mission items and the lists of them that may be uploaded. -/

namespace GroundLink

structure MissionItem where
  seq : UInt16
  frame : Frame
  command : CommandId
  current : Bool
  autocontinue : Bool
  params : Vector Single 4
  x : Int32
  y : Int32
  z : Single
  missionType : MissionType
  deriving DecidableEq, Inhabited

namespace MissionItem

/-- The item all of whose fields are at rest: a waypoint in the frame above home. -/
def blank : MissionItem where
  seq := 0
  frame := .globalRelativeAlt
  command := .navWaypoint
  current := false
  autocontinue := true
  params := Vector.replicate 4 Single.zero
  x := 0
  y := 0
  z := Single.zero
  missionType := .mission

/-- Degrees in units of `10 ^ -7`, the product rounded to a double first; held in the word's range. -/
def degrees (x : Double) : Int32 :=
  Int32.ofInt ((x.scale 10000000).roundWithin Int32.minValue.toInt Int32.maxValue.toInt)

/-- The waypoint at a place; the first of a list is its current item. -/
def waypoint (seq : UInt16) (latitude longitude : Double) (altitude : Single) : MissionItem :=
  { blank with seq, current := seq = 0, x := degrees latitude, y := degrees longitude, z := altitude }

/-- The message that carries an item to `target`. -/
def encode (target : Address) (i : MissionItem) : MissionItemInt where
  seq := i.seq
  frame := i.frame
  command := i.command
  current := if i.current then 1 else 0
  autocontinue := if i.autocontinue then 1 else 0
  target := target
  params := i.params
  x := i.x
  y := i.y
  z := i.z
  missionType := i.missionType

/-- The item a message carries; any flag but zero counts as set. -/
def decode (m : MissionItemInt) : MissionItem where
  seq := m.seq
  frame := m.frame
  command := m.command
  current := m.current ≠ 0
  autocontinue := m.autocontinue ≠ 0
  params := m.params
  x := m.x
  y := m.y
  z := m.z
  missionType := m.missionType

theorem decode_encode (target : Address) (i : MissionItem) : decode (encode target i) = i := by
  obtain ⟨seq, frame, command, current, autocontinue, params, x, y, z, missionType⟩ := i
  cases current <;> cases autocontinue <;> rfl

end MissionItem

def maxItems : Nat := 65535

/-- Whether item `i` of a list carries the number `first + i`, for every `i`. -/
def numberedFrom : Nat → List MissionItem → Bool
  | _, [] => true
  | first, i :: rest => i.seq.toNat = first && numberedFrom (first + 1) rest

/-- The first fault of a list that is to go up as a list of the given type. Only a list that must
have a current item is held to exactly one. -/
def uploadFault? (items : List MissionItem) (missionType : MissionType) (requireCurrent : Bool) :
    Option TransferError :=
  if items.isEmpty then some .noMissionAvailable
  else if maxItems < items.length then some .tooManyMissionItems
  else if !numberedFrom 0 items then some .invalidSequence
  else if requireCurrent && items.countP (·.current) ≠ 1 then some .currentInvalid
  else if items.any (·.missionType ≠ missionType) then some .missionTypeNotConsistent
  else none

end GroundLink
