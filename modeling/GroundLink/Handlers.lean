/-! The table of message handlers. Handlers are registered for a kind of message by an owner, and taken out
by kind and owner or by owner alone. A message is for the handlers of its kind that stand in the table when
it is dispatched, in the order of their registration. What the kinds are is left open. -/

namespace GroundLink

/-- The name of someone who registers handlers. -/
abbrev Owner := Nat

structure Handler (κ η : Type) where
  kind : κ
  owner : Owner
  action : η

/-- The registered handlers, oldest first, and the number of owners named. -/
structure Handlers (κ η : Type) where
  entries : List (Handler κ η)
  owners : Nat

namespace Handlers

variable {κ η : Type}

def empty : Handlers κ η := ⟨[], 0⟩

def count (t : Handlers κ η) : Nat := t.entries.length

/-- The next owner; `allocate` hands it out. -/
def freshOwner (t : Handlers κ η) : Owner := t.owners

def allocate (t : Handlers κ η) : Handlers κ η := { t with owners := t.owners + 1 }

def register (t : Handlers κ η) (kind : κ) (owner : Owner) (action : η) : Handlers κ η :=
  { t with entries := t.entries ++ [⟨kind, owner, action⟩] }

def registerAll (t : Handlers κ η) (kinds : List κ) (owner : Owner) (action : η) : Handlers κ η :=
  kinds.foldl (fun t kind => t.register kind owner action) t

def unregister [DecidableEq κ] (t : Handlers κ η) (kind : κ) (owner : Owner) : Handlers κ η :=
  { t with entries := t.entries.filter fun h => !(h.kind = kind && h.owner = owner) }

def unregisterAll (t : Handlers κ η) (owner : Owner) : Handlers κ η :=
  { t with entries := t.entries.filter fun h => h.owner ≠ owner }

/-- What a message of the given kind sets off now. -/
def matching [DecidableEq κ] (t : Handlers κ η) (kind : κ) : List η :=
  (t.entries.filter fun h => h.kind = kind).map (·.action)

end Handlers

end GroundLink
