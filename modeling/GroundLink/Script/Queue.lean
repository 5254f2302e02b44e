import GroundLink.Fifo

/-! Scripts for a queue of 64-bit integers. -/

namespace GroundLink.Script

inductive QueueStep
  | push (n : Int64)
  | pop
  | front
  | addToFront (n : Int64)
  | removeEqual (n : Int64)
  | removeGreater (n : Int64)
  | drain
  | size
  /-- Whether a number for new work is one that was not handed out before. -/
  | freshNumber

inductive QueueAnswer
  | nothing
  | element (n : Int64)
  | elements (list : List Int64)
  | size (length : Nat) (empty : Bool)
  | yes

structure QueueEntry where
  answer : QueueAnswer
  queue : Fifo Int64

/-- An element that is taken out of a queue, if there is one. -/
def taken (q : Fifo Int64) : Option (Int64 × Fifo Int64) → QueueEntry
  | none => ⟨.nothing, q⟩
  | some (n, q) => ⟨.element n, q⟩

def queueFront (q : Fifo Int64) : QueueAnswer := q.front?.elim .nothing .element

def queueStep (q : Fifo Int64) : QueueStep → QueueEntry
  | .push n => ⟨.nothing, q.push n⟩
  | .pop => taken q q.pop?
  | .front => ⟨queueFront q, q⟩
  | .addToFront n =>
    let q := q.modifyFront (· + n)
    ⟨queueFront q, q⟩
  | .removeEqual n => taken q (q.removeFirst? (· = n))
  | .removeGreater n => taken q (q.removeFirst? (· > n))
  | .drain => ⟨.elements q.items, .empty⟩
  | .size => ⟨.size q.size q.isEmpty, q⟩
  | .freshNumber => ⟨.yes, q⟩

def runQueue : Fifo Int64 → List QueueStep → List QueueEntry
  | _, [] => []
  | q, s :: rest =>
    let e := queueStep q s
    e :: runQueue e.queue rest

end GroundLink.Script
