import GroundLink.Toml.Node

/-! Reading the values of a document as fields of a given type. Whole numbers also serve as floats;
nothing else is converted, and a number that does not fit its field is refused. -/

namespace GroundLink.Toml

abbrev Field (α : Type) := Node → Option α

namespace Field

def double : Field Double
  | .float x => some x
  | .integer i => some (Double.ofInt i)
  | _ => none

/-- A float is a double first and then the single nearest to that; a whole number is rounded once. -/
def single : Field Single
  | .float x => some x.toSingle
  | .integer i => some (Single.ofInt i)
  | _ => none

def boolean : Field Bool
  | .boolean b => some b
  | _ => none

def natural (bound : Nat) : Field Nat
  | .integer i => if 0 ≤ i ∧ i < bound then some i.toNat else none
  | _ => none

end Field

end GroundLink.Toml
