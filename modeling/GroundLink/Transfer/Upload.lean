import GroundLink.Autopilot
import GroundLink.Job.Move

/-! Sending a list to a peer. The count of items opens the transfer; the peer then asks for one item
after the other and closes with an acknowledgement. The same steps serve a peer that asked for our
list, which need not have a current item. -/

namespace GroundLink

structure Upload where
  items : List MissionItem
  list : ListRef
  /-- The flight stack the link knew of when the upload was asked for. -/
  autopilot : Autopilot
  requireCurrent : Bool
  wantsProgress : Bool
  deriving DecidableEq, Inhabited

namespace Upload

/-- Whether the count is still to be answered, or else the number of the item that comes next. -/
inductive Stage
  | counting
  | serving (next : Nat)
  deriving DecidableEq, Inhabited

def Stage.next : Stage → Nat
  | counting => 0
  | serving next => next

/-- A stage and how often something went out since the last sign of progress. -/
structure State where
  stage : Stage
  retries : Nat
  deriving DecidableEq, Inhabited

def kinds : List Kind := [.missionRequest, .missionRequestInt, .missionAck]

def count (u : Upload) : Message :=
  .missionCount ⟨UInt16.ofNat (min u.items.length maxItems), u.list.peer, u.list.missionType⟩

def start (p : Policy) (u : Upload) : Move State :=
  match uploadFault? u.items u.list.missionType u.requireCurrent with
  | some e => .stop (.failed e)
  | none => .proceed (.restart p.timeout) (some .zero) (some u.count) ⟨.counting, 1⟩

/-- Silence. The count is repeated; items are not, since the peer asks for them. -/
def onTimeout (p : Policy) (u : Upload) (s : State) : Move State :=
  if p.retries ≤ s.retries then .stop (.failed .timeout)
  else .proceed (.restart p.timeout) none (if s.stage = .counting then some u.count else none)
    { s with retries := s.retries + 1 }

/-- Answers a request for an item that was sent before or comes next. One for an earlier item is a
retry of the peer's and uses up ours; from the answer on, that item's successor comes next. -/
def onRequest (p : Policy) (u : Upload) (s : State) (seq : Nat) : Move State :=
  match u.items[seq]? with
  | none => .ignore
  | some item =>
    if s.stage.next < seq then .ignore
    else if seq < s.stage.next ∧ p.retries ≤ s.retries then .stop (.failed .timeout)
    else
      .proceed .extend (some ⟨seq + 1, u.items.length + 1⟩) (some (.missionItemInt (item.encode u.list.peer)))
        ⟨.serving (seq + 1), (if seq < s.stage.next then s.retries else 0) + 1⟩

/-- The peer closes the transfer; it may only accept a list of which every item was sent. -/
def onAck (u : Upload) (s : State) (result : MissionResult) : Move State :=
  match result.failure? with
  | some e => .stop (.failed e)
  | none =>
    if s.stage.next = u.items.length then .finish none (some .one) (.success .done)
    else .stop (.failed .protocolError)

/-- A request in the older form is served for ArduPilot only; anyone else is told to use the newer. -/
def onMessage (p : Policy) (u : Upload) (s : State) (sender : Address) : Message → Move State
  | .missionRequest r =>
    if u.autopilot = .ardupilot then u.onRequest p s r.seq.toNat
    else .proceed .extend none (some (.missionAck ⟨.unsupported, sender, u.list.missionType⟩)) s
  | .missionRequestInt r => u.onRequest p s r.seq.toNat
  | .missionAck a => u.onAck s a.result
  | _ => .ignore

end Upload

end GroundLink
