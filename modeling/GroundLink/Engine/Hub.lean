import GroundLink.Engine.Link
import GroundLink.Handlers
import GroundLink.Job.Task
import GroundLink.Time.Timers

/-! What the queues of an engine share: the clock, the timers, the message handlers and the link. -/

namespace GroundLink

/-- Our part in a mission transfer: we asked for it, or the peer did. -/
inductive Side
  | client
  | server
  deriving DecidableEq, Inhabited

inductive Service
  | commands
  | mission (side : Side)
  deriving DecidableEq, Inhabited

/-- A job, by its queue and its number there. -/
structure Ticket where
  service : Service
  number : Nat
  deriving DecidableEq, Inhabited

/-- Who gets a message: whatever command is in flight, or one job that listens to one system only,
or to all if that is zero. -/
inductive Subscriber
  | commands
  | job (ticket : Ticket) (system : UInt8)
  deriving DecidableEq, Inhabited

inductive Effect
  | sent (job : Ticket) (message : Message)
  | refused (job : Ticket) (message : Message)
  | progress (job : Ticket) (value : Fraction)
  | result (job : Ticket) (outcome : Outcome)
  deriving DecidableEq

structure Hub where
  clock : Instant
  timeout : Span
  commandRetries : Nat
  missionRetries : Nat
  link : Link
  timers : Timers Ticket
  handlers : Handlers Kind Subscriber

namespace Hub

def policy (h : Hub) : Service → Policy
  | .commands => ⟨h.timeout, h.commandRetries⟩
  | .mission _ => ⟨h.timeout, h.missionRetries⟩

def setting (h : Hub) (service : Service) : Setting := ⟨h.policy service, h.link.own, h.link.autopilot⟩

def disarm (h : Hub) : Option Cookie → Hub
  | none => h
  | some cookie => { h with timers := h.timers.remove cookie }

def arm (h : Hub) (job : Ticket) (span : Span) : Hub := { h with timers := h.timers.add h.clock span job }

def refresh (h : Hub) : Option Cookie → Hub
  | none => h
  | some cookie => { h with timers := h.timers.refresh h.clock cookie }

/-- Treats the timer of a job as a step asks for; the cookie it has then, and the hub. -/
def await (h : Hub) (job : Ticket) (cookie : Option Cookie) : Wait → Option Cookie × Hub
  | .restart span =>
    let h := h.disarm cookie
    (some h.timers.fresh, h.arm job span)
  | .extend => (cookie, h.refresh cookie)

def retire (h : Hub) (owner : Owner) (cookie : Option Cookie) : Hub :=
  let h := h.disarm cookie
  { h with handlers := h.handlers.unregisterAll owner }

/-- Offers a message to the link: the hub after it, and what was seen. -/
def offer (h : Hub) (job : Ticket) (m : Message) : Hub × Effect :=
  ({ h with link := h.link.offered }, if h.link.accepts m then .sent job m else .refused job m)

end Hub

end GroundLink
