import GroundLink.Job.Move

/-! Requests that one message answers: emptying a list, and choosing the item a vehicle flies to. -/

namespace GroundLink

structure Clear where
  list : ListRef
  deriving DecidableEq, Inhabited

namespace Clear

def kinds : List Kind := [.missionAck]

def request (c : Clear) : Message := .missionClearAll ⟨c.list.peer, c.list.missionType⟩

def start (p : Policy) (c : Clear) : Move Nat := .proceed (.restart p.timeout) none (some c.request) 1

def onTimeout (p : Policy) (c : Clear) (retries : Nat) : Move Nat :=
  if p.retries ≤ retries then .stop (.failed .timeout)
  else .proceed (.restart p.timeout) none (some c.request) (retries + 1)

def onMessage : Message → Move Nat
  | .missionAck a => .stop (match a.result.failure? with | some e => .failed e | none => .success .done)
  | _ => .ignore

end Clear

structure SetCurrent where
  peer : Address
  current : Int
  deriving DecidableEq, Inhabited

namespace SetCurrent

def kinds : List Kind := [.missionCurrent]

def request (c : SetCurrent) : Message := .missionSetCurrent ⟨UInt16.ofNat c.current.toNat, c.peer⟩

/-- Only what fits the message's field can be asked for. -/
def start (p : Policy) (c : SetCurrent) : Move Nat :=
  if c.current < 0 ∨ (maxItems : Int) < c.current then .stop (.failed .currentInvalid)
  else .proceed (.restart p.timeout) none (some c.request) 1

def onTimeout (p : Policy) (c : SetCurrent) (retries : Nat) : Move Nat :=
  if p.retries ≤ retries then .stop (.failed .timeout)
  else .proceed (.restart p.timeout) none (some c.request) (retries + 1)

/-- A report of another item is answered by asking again. -/
def onMessage (p : Policy) (c : SetCurrent) (retries : Nat) : Message → Move Nat
  | .missionCurrent m =>
    if (m.seq.toNat : Int) = c.current then .stop (.success .done)
    else if p.retries ≤ retries then .stop (.failed .timeout)
    else .proceed .extend none (some c.request) (retries + 1)
  | _ => .ignore

end SetCurrent

end GroundLink
