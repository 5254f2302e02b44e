import GroundLink.Engine.Basic

/-! What a caller may ask an engine for. Our own transfers are addressed to the component that flies
the vehicle; those a peer has begun, to that peer. -/

namespace GroundLink

inductive Order
  | command (request : Request) (wantsProgress : Bool)
  | upload (missionType : MissionType) (system : UInt8) (items : List MissionItem) (wantsProgress : Bool)
  | download (missionType : MissionType) (system : UInt8) (wantsProgress : Bool)
  | clear (missionType : MissionType) (system : UInt8)
  | setCurrent (system : UInt8) (current : Int)
  /-- A peer has announced a list of so many items. -/
  | receive (missionType : MissionType) (peer : Address) (count : Nat)
  /-- A peer has asked for our list. -/
  | send (missionType : MissionType) (peer : Address) (items : List MissionItem)
  deriving DecidableEq, Inhabited

namespace Order

def service : Order → Service
  | command .. => .commands
  | upload .. | download .. | clear .. | setCurrent .. => .mission .client
  | receive .. | send .. => .mission .server

/-- The job an order makes. An upload keeps to the flight stack that is known when it is ordered. -/
def task (autopilot : Autopilot) : Order → Task
  | command request wantsProgress => .command ⟨request, wantsProgress⟩
  | upload missionType system items wantsProgress =>
    .transfer (.upload
      { items, list := ⟨.pilotOf system, missionType⟩, autopilot, requireCurrent := true, wantsProgress })
  | download missionType system wantsProgress =>
    .transfer (.download ⟨⟨.pilotOf system, missionType⟩, wantsProgress⟩)
  | clear missionType system => .transfer (.clear ⟨⟨.pilotOf system, missionType⟩⟩)
  | setCurrent system current => .transfer (.setCurrent ⟨.pilotOf system, current⟩)
  | receive missionType peer count => .transfer (.receive ⟨⟨peer, missionType⟩, count⟩)
  | send missionType peer items =>
    .transfer (.upload
      { items, list := ⟨peer, missionType⟩, autopilot, requireCurrent := false, wantsProgress := false })

end Order

namespace Engine

def nextTicket (e : Engine) (service : Service) : Ticket := ⟨service, (e.queue service).submitted⟩

/-- Places an order. Commands always queue; a transfer may refuse to wait behind others. -/
def place (e : Engine) (o : Order) (admission : Admission) : Reaction :=
  match o.task e.hub.link.autopilot with
  | .command a => e.command a
  | .transfer t => e.submit o.service (.transfer t) admission

end Engine

structure Status where
  clock : Instant
  commands : Nat
  acksSeen : Nat
  client : Nat
  clientIdle : Bool
  serverIdle : Bool
  handlers : Nat
  timers : Nat
  deriving DecidableEq

def Engine.status (e : Engine) : Status where
  clock := e.hub.clock
  commands := e.commands.pending
  acksSeen := e.acksSeen
  client := e.client.pending
  clientIdle := e.client.isIdle
  serverIdle := e.server.isIdle
  handlers := e.hub.handlers.count
  timers := e.hub.timers.size

end GroundLink
