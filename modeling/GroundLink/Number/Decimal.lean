import GroundLink.Number.Binary

/-! Decimal text of floating-point words. Reading takes an integer of digits and a power of ten and
rounds their product once. Writing knows two forms: the fewest digits that read back to the same
word, away from zero on a tie and always written out in full without an exponent, and a fixed number
of places, where the exact value is rounded with a tie to the even digit. -/

namespace GroundLink.Decimal

/-- Beyond this many places to the left of the point every number is infinite, and beyond as many
to the right it is zero. -/
def reach : Int := 400

/-- The double nearest to `digits · 10 ^ power`. -/
def readDouble (negative : Bool) (digits : Nat) (power : Int) : Double :=
  let places : Int := (Nat.toDigits 10 digits).length + power
  if digits = 0 ∨ places < -reach then Double.ofParts negative 0
  else if reach < places then Double.infinite negative
  else if 0 ≤ power then Double.ofRatio negative (digits * Nat.pow 10 power.toNat) 1
  else Double.ofRatio negative digits (Nat.pow 10 (-power).toNat)

def padded (width n : Nat) : String :=
  let digits := Nat.toDigits 10 n
  String.ofList (List.replicate (width - digits.length) '0' ++ digits)

/-- `n / 10 ^ places` written with exactly so many digits after the point. -/
def withPlaces (places n : Nat) : String :=
  if places = 0 then toString n
  else toString (n / Nat.pow 10 places) ++ "." ++ padded places (n % Nat.pow 10 places)

def signed (negative : Bool) (text : String) : String := if negative then "-" ++ text else text

/-- The words that are not finite numbers. -/
def special (negative nan : Bool) : String := if nan then "NaN" else signed negative "inf"

/-- The nearest number of units of `10 ^ power` to `num / den`, a tie upwards. -/
def units (num den : Nat) (power : Int) : Nat :=
  if 0 ≤ power then roundUp num (den * Nat.pow 10 power.toNat)
    else roundUp (num * Nat.pow 10 (-power).toNat) den

/-- The decimal exponent of the leading digit of a positive quotient. -/
def leading (num den : Nat) : Int :=
  if den ≤ num then (Nat.toDigits 10 (num / den)).length - 1
  else
    let k := (Nat.toDigits 10 (den / num)).length
    if den ≤ num * Nat.pow 10 (k - 1) then 1 - (k : Int) else -(k : Int)

/-- The shortest decimal `(digits, power)` that reads back to the positive double `x`. The grids of
one digit, of two and so on are tried in turn; on each, the two points around `x` are, and the nearer
one has precedence, or the greater one if `x` is halfway between them. -/
def shortest (x : Double) : Nat × Int :=
  let (num, den) := x.ratio
  let top := leading num den
  let back (d : Nat × Int) : Bool := (readDouble false d.1 d.2).word = x.word
  let grid (count : Nat) : List (Nat × Int) :=
    let power := top + 1 - count
    let near := units num den power
    [(near, power), (near + 1, power), (near - 1, power)]
  ((List.range' 1 17).flatMap grid).find? back |>.getD (units num den (top - 16), top - 16)

def positional (digits : Nat) (power : Int) : String :=
  if 0 ≤ power then toString (digits * Nat.pow 10 power.toNat)
  else withPlaces (-power).toNat digits

/-- Strips the zeros at the end of a decimal below the point. -/
def trim : Nat → Nat → Int → Nat × Int
  | 0, digits, power => (digits, power)
  | fuel + 1, digits, power =>
    if power < 0 ∧ digits % 10 = 0 then trim fuel (digits / 10) (power + 1) else (digits, power)

/-- The fewest digits that read back, written in full. -/
def display (x : Double) : String :=
  if !x.isFinite then special x.negative x.isNaN
  else if x.word = 0 then signed x.negative "0"
  else
    let (digits, power) := shortest x
    let (digits, power) := trim 17 digits power
    signed x.negative (positional digits power)

def fixedDouble (places : Nat) (x : Double) : String :=
  if !x.isFinite then special x.negative x.isNaN
  else
    let (num, den) := x.ratio
    signed x.negative (withPlaces places (roundEven (num * Nat.pow 10 places) den))

def fixedSingle (places : Nat) (x : Single) : String :=
  if x.isNaN || x.isInfinite then special x.negative x.isNaN
  else
    let (m, e) := Format.single.magnitude x.word
    let (num, den) := if 0 ≤ e then (m * Nat.pow 2 e.toNat, 1) else (m, Nat.pow 2 (-e).toNat)
    signed x.negative (withPlaces places (roundEven (num * Nat.pow 10 places) den))

end GroundLink.Decimal
