import GroundLink.Command.Request
import GroundLink.Job.Move

/-! A command in flight. It is sent again whenever its time is up, until the retries are used up; an
answer that it is in progress makes the sender wait longer instead. -/

namespace GroundLink

structure Attempt where
  request : Request
  wantsProgress : Bool
  deriving DecidableEq, Inhabited

namespace Attempt

/-- The progress of a vehicle that does not know it. -/
def unknownProgress : UInt8 := 255

/-- The state of a command in flight is the number of retries left. -/
def start (p : Policy) (autopilot : Autopilot) (a : Attempt) : Move Nat :=
  .proceed (.restart p.timeout) none (some (a.request.message autopilot)) p.retries

def onTimeout (p : Policy) (autopilot : Autopilot) (a : Attempt) : Nat → Move Nat
  | 0 => .stop (.commandFailed .timeout)
  | retries + 1 => .proceed (.restart p.timeout) none (some (a.request.message autopilot)) retries

/-- Whether an answer is for us: a zero in its target stands for everyone. -/
def isFor (own target : Address) : Bool :=
  (target.system = 0 || target.system = own.system) &&
    (target.component = 0 || target.component = own.component)

/-- A command in progress has the time of all its retries to end. -/
def extend (p : Policy) (retries : Nat) (progress : UInt8) : Move Nat :=
  .proceed (.restart (p.timeout.times (max 1 retries)))
    (if progress = unknownProgress then none else some ⟨min progress.toNat 100, 100⟩) none retries

def onAck (p : Policy) (own : Address) (a : Attempt) (retries : Nat) (ack : CommandAck) : Move Nat :=
  if !isFor own ack.target || ack.command ≠ a.request.command then .ignore
  else
    match ack.result with
    | .accepted => .stop (.success .done)
    | .temporarilyRejected | .denied | .failed => .stop (.commandFailed .denied)
    | .unsupported => .stop (.commandFailed .unsupported)
    | .inProgress => extend p retries ack.progress
    | .cancelled | .other _ => .ignore

def onMessage (p : Policy) (own : Address) (a : Attempt) (retries : Nat) : Message → Move Nat
  | .commandAck ack => a.onAck p own retries ack
  | _ => .ignore

end Attempt

end GroundLink
