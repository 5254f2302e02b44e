/-! Binary floating-point words of the two interchange widths. A word is kept as its bits; what a
word stands for is an exact number `m · 2 ^ e`, and every operation rounds an exact quotient of
natural numbers once, to the nearest word, a tie going to the even one. Nothing here uses the
machine's own floating-point unit, so that every value can be computed in a proof. -/

namespace GroundLink

/-- The quotient `num / den` rounded to the nearest natural number, a tie to the even one. -/
def roundEven (num den : Nat) : Nat :=
  let q := num / den
  let r := 2 * (num % den)
  if r < den then q else if den < r then q + 1 else q + q % 2

/-- The quotient `num / den` rounded to the nearest natural number, a tie upwards. -/
def roundUp (num den : Nat) : Nat := (2 * num + den) / (2 * den)

/-- Widths of the fraction field and of the exponent field of a word. -/
structure Format where
  fraction : Nat
  exponent : Nat

namespace Format

def single : Format := ⟨23, 8⟩

def double : Format := ⟨52, 11⟩

/-- Place value of the lowest bit of the smallest numbers, as a power of two. -/
def lowest (f : Format) : Int := 2 - Nat.pow 2 (f.exponent - 1) - f.fraction

/-- The word of positive infinity; larger words without the sign are not numbers. -/
def infinity (f : Format) : Nat := (Nat.pow 2 f.exponent - 1) * Nat.pow 2 f.fraction

/-- Weight of the sign bit. -/
def sign (f : Format) : Nat := Nat.pow 2 (f.fraction + f.exponent)

/-- The quiet word that stands for "not a number". -/
def quiet (f : Format) : Nat := f.infinity + Nat.pow 2 (f.fraction - 1)

/-- The exact value `(m, e)`, standing for `m · 2 ^ e`, of a finite word without its sign. -/
def magnitude (f : Format) (word : Nat) : Nat × Int :=
  let field := word / Nat.pow 2 f.fraction
  let low := word % Nat.pow 2 f.fraction
  if field = 0 then (low, f.lowest) else (low + Nat.pow 2 f.fraction, f.lowest + field - 1)

/-- The exponent `k` with `2 ^ k ≤ num / den < 2 ^ (k + 1)`, for positive arguments. -/
def floorLog (num den : Nat) : Int :=
  let k : Int := (num.log2 : Int) - den.log2
  let below := if 0 ≤ k then num < den * Nat.pow 2 k.toNat else num * Nat.pow 2 (-k).toNat < den
  if below then k - 1 else k

/-- The word without sign that is nearest to `num / den`; overflow goes to infinity. -/
def nearest (f : Format) (num den : Nat) : Nat :=
  if num = 0 then 0 else
    let e := max f.lowest (floorLog num den - f.fraction)
    let m :=
      if 0 ≤ e then roundEven num (den * Nat.pow 2 e.toNat) else roundEven (num * Nat.pow 2 (-e).toNat) den
    min f.infinity (m + (e - f.lowest).toNat * Nat.pow 2 f.fraction)

end Format

structure Single where
  bits : UInt32
  deriving DecidableEq, Inhabited

structure Double where
  bits : UInt64
  deriving DecidableEq, Inhabited

namespace Single

def ofParts (negative : Bool) (word : Nat) : Single :=
  ⟨UInt32.ofNat (if negative then word + Format.single.sign else word)⟩

def negative (x : Single) : Bool := Format.single.sign ≤ x.bits.toNat

def word (x : Single) : Nat := x.bits.toNat % Format.single.sign

def isNaN (x : Single) : Bool := Format.single.infinity < x.word

def isInfinite (x : Single) : Bool := x.word = Format.single.infinity

def zero : Single := ⟨0⟩

def quietNaN : Single := ofParts false Format.single.quiet

def ofRatio (num den : Nat) : Single := ofParts false (Format.single.nearest num den)

def ofInt (i : Int) : Single := ofParts (i < 0) (Format.single.nearest i.natAbs 1)

/-- Position of a number on the line of all words; both zeros stand at the origin. -/
def position (x : Single) : Int := if x.negative then -(x.word : Int) else x.word

/-- The order of numbers; false as soon as one side is not a number. -/
def lt (x y : Single) : Bool := !x.isNaN && !y.isNaN && x.position < y.position

end Single

namespace Double

def ofParts (negative : Bool) (word : Nat) : Double :=
  ⟨UInt64.ofNat (if negative then word + Format.double.sign else word)⟩

def negative (x : Double) : Bool := Format.double.sign ≤ x.bits.toNat

def word (x : Double) : Nat := x.bits.toNat % Format.double.sign

def isNaN (x : Double) : Bool := Format.double.infinity < x.word

def isInfinite (x : Double) : Bool := x.word = Format.double.infinity

def isFinite (x : Double) : Bool := x.word < Format.double.infinity

/-- A number above zero, infinity included. -/
def isPositive (x : Double) : Bool := !x.negative && !x.isNaN && x.word ≠ 0

def quietNaN : Double := ofParts false Format.double.quiet

def infinite (negative : Bool) : Double := ofParts negative Format.double.infinity

def ofRatio (negative : Bool) (num den : Nat) : Double :=
  ofParts negative (Format.double.nearest num den)

def ofInt (i : Int) : Double := ofRatio (i < 0) i.natAbs 1

/-- The exact value of a finite double without its sign, as a quotient of natural numbers. -/
def ratio (x : Double) : Nat × Nat :=
  let (m, e) := Format.double.magnitude x.word
  if 0 ≤ e then (m * Nat.pow 2 e.toNat, 1) else (m, Nat.pow 2 (-e).toNat)

def toSingle (x : Double) : Single :=
  if x.isNaN then Single.quietNaN
  else if x.isInfinite then Single.ofParts x.negative Format.single.infinity
  else
    let (num, den) := x.ratio
    Single.ofParts x.negative (Format.single.nearest num den)

/-- The product with a natural number, rounded once. -/
def scale (x : Double) (factor : Nat) : Double :=
  if x.isFinite then
    let (num, den) := x.ratio
    ofRatio x.negative (num * factor) den
  else x

/-- The nearest integer, a half away from zero, held within `low` and `high`; zero for a word that
is not a number. -/
def roundWithin (low high : Int) (x : Double) : Int :=
  if x.isNaN then 0
  else if x.isInfinite then (if x.negative then low else high)
  else
    let (num, den) := x.ratio
    let n : Int := roundUp num den
    max low (min high (if x.negative then -n else n))

end Double

end GroundLink
