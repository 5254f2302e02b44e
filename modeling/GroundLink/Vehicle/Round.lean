import GroundLink.Vehicle.Basic

/-! One round of traffic between an engine and a vehicle. What the engine sent goes to the vehicle,
and the vehicle's answers come back. On the way messages may be lost, answers may come twice, and all
answers may come in the opposite order. -/

namespace GroundLink

/-- What goes wrong in a round; messages and answers are named by their place. -/
structure Faults where
  lostOut : List Nat
  lostBack : List Nat
  doubled : List Nat
  reversed : Bool
  deriving DecidableEq, Inhabited

def Faults.none : Faults := ⟨[], [], [], false⟩

/-- What came of a round: the vehicle after it, its answers in the order they came back, and what of
them arrived. -/
structure Round where
  vehicle : Vehicle
  replies : List Message
  arrivals : List (Header × Message)

namespace Vehicle

def handleAll (v : Vehicle) (peer : Address) : List Message → Replied Vehicle
  | [] => ⟨v, []⟩
  | m :: rest =>
    let r := v.handle peer m
    let s := handleAll r.state peer rest
    ⟨s.state, r.replies ++ s.replies⟩

/-- Sends answers, the first of them at the given place. Every one of them takes a header, also one
that is lost. -/
def emit (v : Vehicle) (faults : Faults) : Nat → List Message → Vehicle × List (Header × Message)
  | _, [] => (v, [])
  | place, m :: rest =>
    let copies := if place ∈ faults.lostBack then 0 else if place ∈ faults.doubled then 2 else 1
    let (v', arrivals) := emit v.counted faults (place + 1) rest
    (v', List.replicate copies (v.header, m) ++ arrivals)

/-- One round of traffic with a peer that has sent the given messages. -/
def round (v : Vehicle) (peer : Address) (faults : Faults) (sent : List Message) : Round :=
  let kept := (sent.zipIdx.filter fun (_, place) => place ∉ faults.lostOut).map (·.1)
  let r := v.handleAll peer kept
  let replies := if faults.reversed then r.replies.reverse else r.replies
  let (vehicle, arrivals) := r.state.emit faults 0 replies
  ⟨vehicle, replies, arrivals⟩

end Vehicle

end GroundLink
