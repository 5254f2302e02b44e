import GroundLink.Autopilot
import GroundLink.Message.Basic

/-! A link over datagrams. Whom it talks to is configured or else learned from the first datagram that
can be read; the flight stack is learned from the target's heartbeats. Addresses may be of any type. -/

namespace GroundLink

/-- What has come in from an address; a message, unless it cannot be read as one. -/
structure Datagram (α : Type) where
  source : α
  content : Option (Header × Message)

/-- Our end of a link over datagrams. -/
structure UdpLink (α : Type) where
  own : Address
  target : UInt8
  remote : Option α
  autopilot : Autopilot
  sequence : UInt8

/-- A message on its way to an address. -/
structure Parcel (α : Type) where
  destination : α
  header : Header
  message : Message

namespace UdpLink

variable {α : Type}

def bind (own : Address) (target : UInt8) (remote : Option α) : UdpLink α :=
  ⟨own, target, remote, .unknown, 0⟩

def connected (l : UdpLink α) : Bool := l.remote.isSome

/-- The flight stack a message makes known, if it is a heartbeat of the target's. -/
def heard? (l : UdpLink α) (header : Header) : Message → Option Autopilot
  | .heartbeat m => if header.sender.system = l.target then Autopilot.ofFirmware? m.firmware else none
  | _ => none

def observe (l : UdpLink α) (source : α) (header : Header) (m : Message) : UdpLink α :=
  { l with
    remote := l.remote.or (some source)
    autopilot := (l.heard? header m).getD l.autopilot }

/-- Takes datagrams in; the messages among them. -/
def poll (l : UdpLink α) : List (Datagram α) → UdpLink α × List (Header × Message)
  | [] => (l, [])
  | d :: rest =>
    match d.content with
    | none => l.poll rest
    | some (header, m) =>
      let (l, messages) := (l.observe d.source header m).poll rest
      (l, (header, m) :: messages)

/-- Puts a message on its way, if it is known where to; that uses up a number. -/
def send? (l : UdpLink α) (m : Message) : Option (UdpLink α × Parcel α) :=
  l.remote.map fun remote => ({ l with sequence := l.sequence + 1 }, ⟨remote, ⟨l.own, l.sequence⟩, m⟩)

theorem remote_observe {l : UdpLink α} {a : α} (h : l.remote = some a) (source : α) (header : Header)
    (m : Message) :
    (l.observe source header m).remote = some a := by
  simp [observe, h]

theorem remote_poll {l : UdpLink α} {a : α} (h : l.remote = some a) (ds : List (Datagram α)) :
    (l.poll ds).1.remote = some a := by
  induction ds generalizing l with
  | nil => exact h
  | cons d rest ih =>
    simp only [poll]
    cases hd : d.content with
    | none => exact ih h
    | some c => exact ih (remote_observe h d.source c.1 c.2)

end UdpLink

inductive Network
  | reachable
  | unreachable
  deriving DecidableEq, Inhabited

/-- What a sender is told where the network carries nothing. -/
def Network.unreachableText : String := "Network is unreachable (os error 101)"

def Network.carries : Network → Bool
  | reachable => true
  | unreachable => false

end GroundLink
