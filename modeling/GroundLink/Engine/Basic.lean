import GroundLink.Config.Basic
import GroundLink.Engine.JobQueue

/-! The engine: a queue of commands and two of mission transfers on one link. It does something only
when it is told to: a message came in, a job is submitted or called off, the clock moved, or it is
time to look after everything. -/

namespace GroundLink

structure Engine where
  config : Config
  hub : Hub
  commands : JobQueue
  client : JobQueue
  server : JobQueue
  acksSeen : Nat

structure Reaction where
  engine : Engine
  effects : List Effect

def Reaction.next (r : Reaction) (f : Engine → Reaction) : Reaction :=
  let r' := f r.engine
  ⟨r'.engine, r.effects ++ r'.effects⟩

namespace Engine

/-- Who owns the handler through which answers to commands come in. -/
def commandOwner : Owner := Handlers.freshOwner (.empty : Handlers Kind Subscriber)

def idle (config : Config) (link : Link) (clock : Instant) : Engine where
  config := config
  hub :=
    { clock, link
      timeout := config.timeoutSpan
      commandRetries := config.commandRetries.toNat
      missionRetries := config.missionRetries.toNat
      timers := .empty
      handlers := Handlers.empty.allocate.register .commandAck commandOwner .commands }
  commands := .empty
  client := .empty
  server := .empty
  acksSeen := 0

def create (config : Config) (link : Link) (clock : Instant) : Except ConfigError Engine :=
  match config.fault? with
  | some e => .error e
  | none => .ok (idle config link clock)

def queue (e : Engine) : Service → JobQueue
  | .commands => e.commands
  | .mission .client => e.client
  | .mission .server => e.server

def withQueue (e : Engine) (q : JobQueue) : Service → Engine
  | .commands => { e with commands := q }
  | .mission .client => { e with client := q }
  | .mission .server => { e with server := q }

def afterTurn (e : Engine) (service : Service) (t : Turn) : Reaction :=
  ⟨{ e.withQueue t.queue service with hub := t.hub }, t.effects⟩

def post (e : Engine) (service : Service) (event : Event) : Engine :=
  e.withQueue ((e.queue service).post event) service

/-- Hands a message to a subscriber, if it comes from where that listens. -/
def deliver (header : Header) (m : Message) (e : Engine) : Subscriber → Engine
  | .commands => e.post .commands (.message none header m)
  | .job ticket system =>
    if system = 0 ∨ header.sender.system = system then
      e.post ticket.service (.message (some ticket.number) header m)
    else e

def receive (e : Engine) (header : Header) (m : Message) : Engine :=
  (e.hub.handlers.matching m.kind).foldl (deliver header m) e

def fireTimers (e : Engine) : Engine :=
  let fire (x : Timer Ticket) : Timers Ticket × Engine → Timers Ticket × Engine := fun (t, e) =>
    (t, e.post x.tag.service (.expiry x.tag.number x.cookie))
  let (timers, e) := Timers.pass e.hub.clock fire (e.hub.timers, e)
  { e with hub := { e.hub with timers } }

def work (e : Engine) (service : Service) : Reaction :=
  let q := e.queue service
  let heard := if service = .commands then q.events.countP Event.isMessage else 0
  { e with acksSeen := e.acksSeen + heard }.afterTurn service (q.work service e.hub)

/-- Looks after everything: timers first, then commands, our transfers and our peers'. -/
def tick (e : Engine) : Reaction :=
  (e.fireTimers.work .commands).next (·.work (.mission .client)) |>.next (·.work (.mission .server))

def submit (e : Engine) (service : Service) (task : Task) (admission : Admission) : Reaction :=
  e.afterTurn service ((e.queue service).submit service e.hub task admission)

def command (e : Engine) (a : Attempt) : Reaction := e.submit .commands (.command a) .queue

def transfer (e : Engine) (side : Side) (t : Transfer) (admission : Admission) : Reaction :=
  e.submit (.mission side) (.transfer t) admission

/-- Calls a transfer off; whether it was still in its queue. -/
def cancel (e : Engine) (side : Side) (number : Nat) : Bool × Reaction :=
  let (found, turn) := (e.queue (.mission side)).cancel (.mission side) e.hub number
  (found, e.afterTurn (.mission side) turn)

def closeQueue (e : Engine) (service : Service) : Reaction :=
  e.afterTurn service ((e.queue service).close service e.hub)

/-- Ends the engine: commands first, then our transfers, then our peers'. -/
def close (e : Engine) : Reaction :=
  let hub := { e.hub with handlers := e.hub.handlers.unregisterAll commandOwner }
  ({ e with hub }.closeQueue .commands).next (·.closeQueue (.mission .client))
    |>.next (·.closeQueue (.mission .server))

def pollInterval (e : Engine) : UInt64 := e.config.pollInterval e.hub.link.connected

def withClock (e : Engine) (clock : Instant) : Engine := { e with hub := { e.hub with clock } }

def withLink (e : Engine) (link : Link) : Engine := { e with hub := { e.hub with link } }

end Engine

/-- Everything that can be done with an engine, its end apart. -/
inductive Input
  | command (a : Attempt)
  | transfer (side : Side) (t : Transfer) (admission : Admission)
  | cancel (side : Side) (number : Nat)
  | receive (header : Header) (m : Message)
  | fireTimers
  | work (service : Service)
  | tick
  | advance (us : UInt64)
  | setClock (clock : Instant)
  | accept (acceptance : Acceptance)
  | autopilot (autopilot : Autopilot)
  | connected (up : Bool)

namespace Engine

def step (e : Engine) : Input → Reaction
  | .command a => e.command a
  | .transfer side t admission => e.transfer side t admission
  | .cancel side number => (e.cancel side number).2
  | .receive header m => ⟨e.receive header m, []⟩
  | .fireTimers => ⟨e.fireTimers, []⟩
  | .work service => e.work service
  | .tick => e.tick
  | .advance us => ⟨e.withClock (e.hub.clock.advance us), []⟩
  | .setClock clock => ⟨e.withClock clock, []⟩
  | .accept acceptance => ⟨e.withLink { e.hub.link with acceptance }, []⟩
  | .autopilot autopilot => ⟨e.withLink { e.hub.link with autopilot }, []⟩
  | .connected up => ⟨e.withLink { e.hub.link with connected := up }, []⟩

def run (e : Engine) : List Input → Reaction
  | [] => ⟨e, []⟩
  | i :: rest => (e.step i).next (·.run rest)

end Engine

end GroundLink
