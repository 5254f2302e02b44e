import GroundLink.Failure
import GroundLink.Mission.Item
import GroundLink.Time.Span

/-! One step of a job. Commands and transfers are state machines that only say what they want done:
what becomes of the timer, what progress to report, which message to send. A step sends at most one
message, and one rule holds for all of them: if the link refuses it, the job has failed. -/

namespace GroundLink

structure Fraction where
  num : Nat
  den : Nat
  deriving DecidableEq, Inhabited

namespace Fraction

def zero : Fraction := ⟨0, 1⟩

def one : Fraction := ⟨1, 1⟩

def toSingle (f : Fraction) : Single := Single.ofRatio f.num f.den

end Fraction

inductive Value
  | done
  | items (list : List MissionItem)
  deriving DecidableEq, Inhabited

inductive Outcome
  | success (value : Value)
  | failure (cause : Failure)
  deriving DecidableEq, Inhabited

namespace Outcome

def failed (e : TransferError) : Outcome := failure (.transfer e)

def commandFailed (e : CommandError) : Outcome := failure (.command e)

end Outcome

/-- How long to wait for an answer, and how often to ask again. -/
structure Policy where
  timeout : Span
  retries : Nat
  deriving DecidableEq, Inhabited

/-- How a step that waits on treats the timer: a new one in place of any that is armed, or the armed
one's span once more, which does nothing to a timer that has fired. -/
inductive Wait
  | restart (span : Span)
  | extend
  deriving DecidableEq, Inhabited

inductive Move (σ : Type)
  | ignore
  /-- The job waits on in the given state, once its message is accepted. -/
  | proceed (wait : Wait) (report : Option Fraction) (message : Option Message) (state : σ)
  /-- The job ends with the given outcome, once its message is accepted. -/
  | finish (message : Option Message) (report : Option Fraction) (outcome : Outcome)

namespace Move

variable {σ ρ : Type}

def stop (outcome : Outcome) : Move σ := .finish none none outcome

def map (f : σ → ρ) : Move σ → Move ρ
  | ignore => ignore
  | proceed wait report message state => proceed wait report message (f state)
  | finish message report outcome => finish message report outcome

def message? : Move σ → Option Message
  | ignore => none
  | proceed _ _ message _ => message
  | finish message _ _ => message

theorem message?_map (f : σ → ρ) (m : Move σ) : (m.map f).message? = m.message? := by
  cases m <;> rfl

end Move

/-- The failure a peer's answer tells of, if it is one. -/
def MissionResult.failure? : MissionResult → Option TransferError
  | accepted => none
  | error => some .protocolError
  | unsupportedFrame => some .unsupportedFrame
  | unsupported => some .unsupported
  | noSpace => some .tooManyMissionItems
  | invalid => some .invalidParam
  | invalidParam _ => some .invalidParam
  | invalidSequence => some .invalidSequence
  | denied => some .denied
  | operationCancelled => some .cancelled

/-- A list of a vehicle's: whose it is and which. -/
structure ListRef where
  peer : Address
  missionType : MissionType
  deriving DecidableEq, Inhabited

namespace ListRef

/-- Tells the peer how a transfer of the list ended. -/
def ack (l : ListRef) (result : MissionResult) : Message := .missionAck ⟨result, l.peer, l.missionType⟩

end ListRef

end GroundLink
