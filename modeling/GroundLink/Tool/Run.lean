import GroundLink.Config.Document
import GroundLink.Engine.Order
import GroundLink.Mission.Plan
import GroundLink.Network.Udp
import GroundLink.Tool.Help
import GroundLink.Vehicle.Round

/-! The mission tool: it sets a link up, waits for a vehicle, has one order carried out and tells how it
ended. Nothing but the order of events matters to the result, so that the vehicle is taken to answer
at once, and time to pass only where nothing is left to be exchanged. -/

namespace GroundLink.Tool

/-- A vehicle the tool might reach. -/
structure Neighbour where
  vehicle : Vehicle
  address : SocketAddress
  /-- Whether it sends heartbeats until somebody talks to it. -/
  announces : Bool

/-- What the tool finds when it is started. -/
structure Surroundings where
  read : String → Option ByteArray
  /-- What the environment says about debugging commands and transfers. -/
  environment : Option String × Option String
  network : Network
  neighbour : Option Neighbour

inductive Complaint
  | nothing
  | line (text : String)
  /-- An error with its causes, or how the tool is used. -/
  | lines
  deriving DecidableEq, Inhabited

/-- How a run of the tool ended, and the vehicle after it. -/
structure Exit where
  code : UInt8
  output : String
  complaint : Complaint
  vehicle : Option Vehicle

inductive Trouble
  | noVehicle
  | badFile
  | badConfig (e : ConfigError)
  | failed (e : Failure)
  | endless
  deriving DecidableEq

def Trouble.complaint : Trouble → Complaint
  | noVehicle => .line "Error: no vehicle heard within 10s"
  | badFile => .lines
  | badConfig e => .line ("Error: " ++ e.text)
  | failed e => .line ("Error: " ++ e.text)
  | endless => .lines

def degreesText (x : Int32) : String :=
  let i := x.toInt
  Decimal.fixedDouble 7 (Double.ofRatio (i < 0) i.natAbs 10000000)

/-- A number in a column of three characters at least. -/
def inColumn (n : Nat) : String :=
  let digits := toString n
  String.ofList (List.replicate (3 - digits.length) ' ') ++ digits

def itemLine (i : MissionItem) : String :=
  inColumn i.seq.toNat ++ " " ++ i.command.name ++ " lat=" ++ degreesText i.x ++ " lon=" ++ degreesText i.y
    ++ " alt=" ++ Decimal.fixedSingle 1 i.z ++ (if i.current then " (current)" else "")

/-- What is printed when an action has succeeded; `count` items were uploaded. -/
def report (a : Action) (count : Nat) (v : Value) : String :=
  match a, v with
  | .upload _, _ => page ["Uploaded " ++ toString count ++ " items"]
  | .download, .items list => page ((toString list.length ++ " items") :: list.map itemLine)
  | .download, .done => page ["0 items"]
  | .clear, _ => page ["Mission cleared"]
  | .setCurrent seq, _ => page ["Current item set to " ++ toString seq]
  | .arm, _ => page ["Armed"]
  | .disarm, _ => page ["Disarmed"]

def configuration (s : Surroundings) (o : Options) : Option Config :=
  let loaded : Option Config :=
    match o.config with
    | none => some .default
    | some path => (Config.ofFile (s.read path)).toOption
  loaded.map fun c => c.withEnvironment s.environment.1 s.environment.2

/-- The order that carries an action out, and the number of items to upload. -/
def order (s : Surroundings) (system : UInt8) : Action → Option (Order × Nat)
  | .upload plan => do
    let plan ← (← String.fromUTF8? (← s.read plan)) |> Plan.ofText?
    return (.upload .mission system plan.items false, plan.items.length)
  | .download => some (.download .mission system false, 0)
  | .clear => some (.clear .mission system, 0)
  | .setCurrent seq => some (.setCurrent system seq, 0)
  | .arm => some (.command (.long (.arm system true)) false, 0)
  | .disarm => some (.command (.long (.arm system false)) false, 0)

/-- Hears the vehicle, if it announces itself and the network carries that. -/
def listen (s : Surroundings) (l : UdpLink SocketAddress) : UdpLink SocketAddress :=
  match s.neighbour with
  | some n =>
    if n.announces && s.network.carries then
      (l.poll [⟨n.address, some (n.vehicle.header, n.vehicle.heartbeat)⟩]).1
    else l
  | none => l

def view (s : Surroundings) (l : UdpLink SocketAddress) : Link where
  own := l.own
  targetSystem := l.target
  autopilot := l.autopilot
  connected := l.connected
  acceptance := if s.network.carries then .always else .never

/-- An engine, the vehicle it talks to, and what is on its way there. -/
structure Talk where
  engine : Engine
  vehicle : Option Vehicle
  outbox : List Message
  outcome : Option Outcome

namespace Talk

/-- Takes note of what an engine did about a job. -/
def follow (t : Talk) (job : Ticket) (r : Reaction) : Talk :=
  let note (t : Talk) : Effect → Talk
    | .sent _ m => { t with outbox := t.outbox ++ [m] }
    | .result job' outcome => if job' = job then { t with outcome := some outcome } else t
    | _ => t
  r.effects.foldl note { t with engine := r.engine }

/-- Takes what is on its way to the vehicle, and its answers back; if there is nothing, the time to
wait for an answer passes. -/
def exchange (t : Talk) : Talk :=
  match t.vehicle with
  | some v =>
    if t.outbox.isEmpty then
      { t with engine := t.engine.withClock (t.engine.hub.clock.after t.engine.hub.timeout) }
    else
      let r := v.round t.engine.hub.link.own .none t.outbox
      let e := r.arrivals.foldl (fun e (header, m) => e.receive header m) t.engine
      { t with engine := e, vehicle := some r.vehicle, outbox := [] }
  | none =>
    { t with engine := t.engine.withClock (t.engine.hub.clock.after t.engine.hub.timeout), outbox := [] }

/-- Ticks and exchanges by turns until the job has ended. -/
def settle (job : Ticket) : Nat → Talk → Talk
  | 0, t => t
  | fuel + 1, t =>
    let t := t.follow job t.engine.tick
    if t.outcome.isSome then t else settle job fuel t.exchange

end Talk

/-- More turns than any action takes. -/
def patience : Nat := 1000000000

/-- The vehicle at the other end of a link, if there is one at the address. -/
def partner (s : Surroundings) (l : UdpLink SocketAddress) : Option Vehicle :=
  match s.neighbour with
  | some n => if s.network.carries && l.remote = some n.address then some n.vehicle else none
  | none => none

/-- Has an action carried out: what is printed, or what went wrong, and the vehicle that was talked to. -/
def perform (s : Surroundings) (o : Options) (a : Action) : Except Trouble String × Option Vehicle :=
  match configuration s o with
  | none => (.error .badFile, none)
  | some c =>
    let l := listen s (UdpLink.bind c.own o.target o.remote)
    match Engine.create c (view s l) 0 with
    | .error e => (.error (.badConfig e), none)
    | .ok e =>
      if !l.connected then (.error .noVehicle, none)
      else
        match order s o.target a with
        | none => (.error .badFile, none)
        | some (order, count) =>
          let job := e.nextTicket order.service
          let t : Talk := ⟨e, partner s l, [], none⟩
          let t := (t.follow job (e.place order .exclusive)).settle job patience
          match t.outcome with
          | none => (.error .endless, t.vehicle)
          | some (.failure cause) => (.error (.failed cause), t.vehicle)
          | some (.success value) => (.ok (report a count value), t.vehicle)

def run (s : Surroundings) (args : List String) : Exit :=
  let untouched := s.neighbour.map (·.vehicle)
  match parse args with
  | .error .misuse => ⟨2, "", .lines, untouched⟩
  | .error .version => ⟨0, versionLine, .nothing, untouched⟩
  | .error (.help topic) => ⟨0, helpText topic, .nothing, untouched⟩
  | .ok (o, a) =>
    let (result, vehicle) := perform s o a
    let vehicle := vehicle.or untouched
    match result with
    | .ok text => ⟨0, text, .nothing, vehicle⟩
    | .error trouble => ⟨1, "", trouble.complaint, vehicle⟩

def filesOf (args : List String) : List String :=
  match parse args with
  | .ok (o, .upload plan) => o.config.toList ++ [plan]
  | .ok (o, _) => o.config.toList
  | .error _ => []

end GroundLink.Tool
