import GroundLink.Mission.Item

/-! The mission side of a simulated vehicle. It stores one list. A list that comes in is collected
apart from the stored one and takes its place as a whole, once it is complete; an item that is not
the one asked for makes the vehicle ask again. -/

namespace GroundLink

inductive MissionPhase
  | idle
  /-- A list of so many items is coming in from a peer; the items that have come. -/
  | receiving (count : UInt16) (pending : List MissionItemInt) (peer : Address) (missionType : MissionType)
  | sending (peer : Address)
  deriving DecidableEq, Inhabited

structure VehicleMission where
  items : List MissionItemInt
  current : UInt16
  phase : MissionPhase
  /-- Whether items are asked for in the older form. -/
  legacyRequests : Bool
  deriving DecidableEq

structure Replied (σ : Type) where
  state : σ
  replies : List Message

namespace VehicleMission

def initial : VehicleMission := ⟨[], 0, .idle, false⟩

def store (v : VehicleMission) (items : List MissionItemInt) : VehicleMission :=
  { v with items, current := 0 }

def ack (peer : Address) (missionType : MissionType) (result : MissionResult) : Message :=
  .missionAck ⟨result, peer, missionType⟩

def request (v : VehicleMission) (peer : Address) (seq : Nat) (missionType : MissionType) : Message :=
  let fields : MissionRequest := ⟨UInt16.ofNat seq, peer, missionType⟩
  if v.legacyRequests then .missionRequest fields else .missionRequestInt fields

/-- A peer announces a list. An empty one needs no items. -/
def onCount (v : VehicleMission) (peer : Address) (m : MissionCount) : Replied VehicleMission :=
  if m.count = 0 then ⟨{ v with items := [], phase := .idle }, [ack peer m.missionType .accepted]⟩
  else ⟨{ v with phase := .receiving m.count [] peer m.missionType }, [v.request peer 0 m.missionType]⟩

/-- An item has come; only one that was asked for counts. -/
def onItem (v : VehicleMission) (m : MissionItemInt) : Replied VehicleMission :=
  match v.phase with
  | .receiving count pending peer missionType =>
    if m.seq.toNat ≠ pending.length then ⟨v, [v.request peer pending.length missionType]⟩
    else
      let pending := pending ++ [m]
      if count.toNat ≤ pending.length then
        ⟨{ v.store pending with phase := .idle }, [ack peer missionType .accepted]⟩
      else
        ⟨{ v with phase := .receiving count pending peer missionType },
          [v.request peer pending.length missionType]⟩
  | _ => ⟨v, []⟩

/-- A peer asks for the list; one that a count cannot tell is not offered. -/
def onRequestList (v : VehicleMission) (peer : Address) (m : MissionList) : Replied VehicleMission :=
  if maxItems < v.items.length then ⟨{ v with phase := .idle }, [ack peer m.missionType .noSpace]⟩
  else
    ⟨{ v with phase := .sending peer },
      [.missionCount ⟨UInt16.ofNat v.items.length, peer, m.missionType⟩]⟩

def onRequest (v : VehicleMission) (peer : Address) (m : MissionRequest) : Replied VehicleMission :=
  match v.items[m.seq.toNat]? with
  | some item => ⟨v, [.missionItemInt { item with target := peer }]⟩
  | none => ⟨v, [ack peer m.missionType .invalidSequence]⟩

def onSetCurrent (v : VehicleMission) (m : MissionSetCurrent) : Replied VehicleMission :=
  let v := if m.seq.toNat < v.items.length then { v with current := m.seq } else v
  ⟨v, [.missionCurrent ⟨v.current, 0, 0, 0⟩]⟩

def handle (v : VehicleMission) (peer : Address) : Message → Replied VehicleMission
  | .missionCount m => v.onCount peer m
  | .missionItemInt m => v.onItem m
  | .missionRequestList m => v.onRequestList peer m
  | .missionRequestInt m => v.onRequest peer m
  | .missionAck _ => ⟨{ v with phase := .idle }, []⟩
  | .missionClearAll m => ⟨{ v.store [] with phase := .idle }, [ack peer m.missionType .accepted]⟩
  | .missionSetCurrent m => v.onSetCurrent m
  | _ => ⟨v, []⟩

end VehicleMission

end GroundLink
