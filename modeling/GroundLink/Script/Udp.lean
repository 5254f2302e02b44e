import GroundLink.Network.Udp

/-! Scripts for a datagram link and a number of peers, which are told apart by their index. -/

namespace GroundLink.Script

inductive UdpStep
  /-- Peers send datagrams, and the link takes in all that has come. -/
  | receive (datagrams : List (Datagram Nat))
  | send (message : Message) (times : Nat)
  | ids

inductive UdpAnswer
  | messages (list : List (Header × Message))
  | delivered (parcel : Parcel Nat)
  | notSent
  | ids (own : Address) (target : UInt8)

structure UdpEntry where
  answer : UdpAnswer
  link : UdpLink Nat

/-- What the last of so many sends comes to. -/
def sendTimes (network : Network) (m : Message) : Nat → UdpLink Nat → UdpEntry
  | 0, l => ⟨.notSent, l⟩
  | times + 1, l =>
    let (answer, l) : UdpAnswer × UdpLink Nat :=
      match l.send? m with
      | none => (.notSent, l)
      | some (l, parcel) => (if network.carries then .delivered parcel else .notSent, l)
    if times = 0 then ⟨answer, l⟩ else sendTimes network m times l

/-- Runs one step; `none` if a peer cannot send. -/
def udpStep? (network : Network) (l : UdpLink Nat) : UdpStep → Option UdpEntry
  | .receive datagrams =>
    if !datagrams.isEmpty && !network.carries then none
    else
      let (l, messages) := l.poll datagrams
      some ⟨.messages messages, l⟩
  | .send m times => some (sendTimes network m times l)
  | .ids => some ⟨.ids l.own l.target, l⟩

/-- Runs a script; the text of the error if a peer cannot send. -/
def runUdp (network : Network) : UdpLink Nat → List UdpStep → Except String (List UdpEntry)
  | _, [] => .ok []
  | l, s :: rest =>
    match udpStep? network l s with
    | none => .error Network.unreachableText
    | some e => (runUdp network e.link rest).map (e :: ·)

end GroundLink.Script
