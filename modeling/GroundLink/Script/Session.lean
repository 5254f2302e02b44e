import GroundLink.Engine.Order
import GroundLink.Script.Vehicle
import GroundLink.Vehicle.Round

/-! Scripts for an engine, alone or with a vehicle at the other end of its link. A job that is placed
brings scripts of its own, to be run by its callbacks. While a step is made callbacks are held back;
after it they run one at a time in the order in which they were posted, those that are posted
meanwhile included. -/

namespace GroundLink.Script

/-- A step that callbacks may take, too. -/
inductive Step
  | tick
  | advance (us : UInt64)
  | setClock (now : Instant)
  | receive (header : Header) (message : Message)
  | place (name : String) (order : Order) (admission : Admission) (onResult onProgress : List Step)
  /-- Sends a command and waits for its result, which a callback cannot. -/
  | commandBlocking
  /-- Calls the transfer off that goes by a name, on the side it was placed or on another. -/
  | cancel (name : String) (side : Option Side)
  | accept (on : Bool)
  | acceptNext (count : Nat)
  | autopilot (autopilot : Autopilot)
  | connected (up : Bool)
  | pollInterval
  | ids
  | fireTimers
  | work (service : Service)
  | thenTick (first : Step)
  deriving Inhabited

inductive Answer
  | nothing
  | bool (b : Bool)
  | number (n : Nat)
  | ids (own : Address) (target configured : UInt8)
  | failed (e : CommandError)
  | gone
  /-- A round was made; the vehicle's answers as they came back, and the vehicle. -/
  | exchanged (replies : List Message) (vehicle : Vehicle)
  | quiet

inductive LogEntry
  | progress (name : String) (value : Fraction)
  | ended (name : String) (outcome : Outcome)
  | acted (step : Step) (answer : Answer)

/-- A job's name and the scripts it brought. -/
structure Label where
  name : String
  onResult : List Step
  onProgress : List Step
  deriving Inhabited

inductive Callback
  | progress (label : Label) (value : Fraction)
  | result (label : Label) (outcome : Outcome)

namespace Callback

/-- What a callback tells before it goes on with its script. -/
def entry : Callback → LogEntry
  | progress l value => .progress l.name value
  | result l outcome => .ended l.name outcome

def script : Callback → List Step
  | progress l _ => l.onProgress
  | result l _ => l.onResult

end Callback

structure Seen where
  sent : List Message
  refused : List Message
  log : List LogEntry

def Seen.nothing : Seen := ⟨[], [], []⟩

structure Session where
  engine : Option Engine
  vehicle : Vehicle
  /-- The jobs whose callbacks matter, newest first. -/
  labels : List (Ticket × Label)
  /-- The transfer placed last under every name: its side and its number there. -/
  transfers : List (String × Side × Nat)
  /-- Results of jobs without callbacks. -/
  outcomes : List (Ticket × Outcome)
  callbacks : List Callback
  /-- What was sent and did not go to the vehicle yet. -/
  outbox : List Message
  seen : Seen

namespace Session

def start (engine : Engine) (vehicle : Vehicle) : Session :=
  ⟨some engine, vehicle, [], [], [], [], [], .nothing⟩

def note (s : Session) : Effect → Session
  | .sent _ m => { s with outbox := s.outbox ++ [m], seen := { s.seen with sent := s.seen.sent ++ [m] } }
  | .refused _ m => { s with seen := { s.seen with refused := s.seen.refused ++ [m] } }
  | .progress job value =>
    match s.labels.lookup job with
    | none => s
    | some l => { s with callbacks := s.callbacks ++ [.progress l value] }
  | .result job outcome =>
    match s.labels.lookup job with
    | none => { s with outcomes := (job, outcome) :: s.outcomes }
    | some l => { s with callbacks := s.callbacks ++ [.result l outcome] }

def follow (s : Session) (r : Reaction) : Session := r.effects.foldl note { s with engine := some r.engine }

def log (s : Session) (e : LogEntry) : Session := { s with seen := { s.seen with log := s.seen.log ++ [e] } }

def act (e : Engine) : Step → Session → Answer × Session
  | .tick, s => (.nothing, s.follow e.tick)
  | .advance us, s => (.nothing, s.follow (e.step (.advance us)))
  | .setClock now, s => (.nothing, s.follow (e.step (.setClock now)))
  | .receive header m, s => (.nothing, s.follow (e.step (.receive header m)))
  | .place name order admission onResult onProgress, s =>
    let ticket := e.nextTicket order.service
    let s := { s with labels := (ticket, ⟨name, onResult, onProgress⟩) :: s.labels }
    let s :=
      match ticket with
      | ⟨.commands, _⟩ => s
      | ⟨.mission side, number⟩ => { s with transfers := (name, side, number) :: s.transfers }
    (.nothing, s.follow (e.place order admission))
  | .commandBlocking, s => (.failed .wouldDeadlock, s)
  | .cancel name side, s =>
    match s.transfers.lookup name with
    | none => (.bool false, s)
    | some (own, number) =>
      let (found, r) := e.cancel (side.getD own) number
      (.bool found, s.follow r)
  | .accept on, s => (.nothing, s.follow (e.step (.accept (if on then .always else .never))))
  | .acceptNext count, s => (.nothing, s.follow (e.step (.accept (.only count))))
  | .autopilot autopilot, s => (.nothing, s.follow (e.step (.autopilot autopilot)))
  | .connected up, s => (.nothing, s.follow (e.step (.connected up)))
  | .pollInterval, s => (.number e.pollInterval.toNat, s)
  | .ids, s => (.ids e.hub.link.own e.hub.link.targetSystem e.config.own.system, s)
  | .fireTimers, s => (.nothing, s.follow (e.step .fireTimers))
  | .work service, s => (.nothing, s.follow (e.step (.work service)))
  | .thenTick first, s =>
    let (answer, s) := act e first s
    (answer, s.engine.elim s fun e => s.follow e.tick)

def perform (step : Step) (s : Session) : Answer × Session :=
  match s.engine with
  | none => (.gone, s)
  | some e => act e step s

def react (s : Session) (step : Step) : Session :=
  let (answer, s) := s.perform step
  s.log (.acted step answer)

/-- Runs callbacks until there are none left, but no more than the fuel says. -/
def settle : Nat → Session → Session
  | 0, s => s
  | fuel + 1, s =>
    match s.callbacks with
    | [] => s
    | c :: rest => settle fuel (c.script.foldl react ({ s with callbacks := rest }.log c.entry))

/-- More callbacks than any script leads to. -/
def patience : Nat := 1000000000

end Session

inductive SessionStep
  | plain (step : Step)
  | drop
  /-- Sends a command and waits for its result, while the given steps are made. -/
  | blocking (request : Request) (steps : List SessionStep)
  | exchange (faults : Faults)
  /-- So many rounds in which nothing goes wrong; where there is nothing to exchange, time passes. -/
  | pump (rounds : Nat) (us : UInt64)
  | vehicle (step : VehicleStep)

inductive SessionEntry
  | plain (answer : Answer) (seen : Seen) (status : Option Status)
  | blocked (entries : List SessionEntry) (outcome : Option Outcome)
  | rounds (entries : List SessionEntry)
  | vehicle (entry : VehicleEntry)

namespace Session

/-- Runs the callbacks of a step that was made, and tells what was seen of it. -/
def finish (answer : Answer) (s : Session) : SessionEntry × Session :=
  let s := s.settle patience
  (.plain answer s.seen (s.engine.map Engine.status), { s with seen := .nothing })

/-- One round of traffic with the vehicle, and a tick. -/
def exchange (faults : Faults) (s : Session) : Answer × Session :=
  match s.engine with
  | none => (.gone, s)
  | some e =>
    let r := s.vehicle.round e.hub.link.own faults s.outbox
    let e := r.arrivals.foldl (fun e (header, m) => e.receive header m) e
    let s := { s with vehicle := r.vehicle, outbox := [] }
    (.exchanged r.replies r.vehicle, s.follow e.tick)

/-- A round in which nothing goes wrong, or else some time that passes. -/
def pumpOnce (us : UInt64) (s : Session) : SessionEntry × Session :=
  if s.outbox.isEmpty then
    let (_, s) := s.perform (.advance us)
    let (_, s) := s.perform .tick
    s.finish .quiet
  else
    let (answer, s) := s.exchange .none
    s.finish answer

def pump (us : UInt64) : Nat → Session → List SessionEntry × Session
  | 0, s => ([], s)
  | rounds + 1, s =>
    let (entry, s) := s.pumpOnce us
    let (entries, s) := pump us rounds s
    (entry :: entries, s)

def drop (s : Session) : Session :=
  match s.engine with
  | none => s
  | some e => { s.follow e.close with engine := none }

/-- Queues a command that has no callbacks. -/
def submitCommand (request : Request) (s : Session) : Option Ticket × Session :=
  match s.engine with
  | none => (none, s)
  | some e => (some (e.nextTicket .commands), s.follow (e.place (.command request false) .queue))

mutual

def step : SessionStep → Session → SessionEntry × Session
  | .plain step, s =>
    let (answer, s) := s.perform step
    s.finish answer
  | .drop, s => s.drop.finish .nothing
  | .blocking request steps, s =>
    let (ticket, s) := s.submitCommand request
    let (entries, s) := run steps s
    (.blocked entries (ticket.bind fun t => s.outcomes.lookup t), s)
  | .exchange faults, s =>
    let (answer, s) := s.exchange faults
    s.finish answer
  | .pump rounds us, s =>
    let (entries, s) := pump us rounds s
    (.rounds entries, s)
  | .vehicle step, s =>
    let entry := vehicleStep s.vehicle step
    (.vehicle entry, { s with vehicle := entry.vehicle })

def run : List SessionStep → Session → List SessionEntry × Session
  | [], s => ([], s)
  | first :: rest, s =>
    let (entry, s) := step first s
    let (entries, s) := run rest s
    (entry :: entries, s)

end

end Session

end GroundLink.Script
