import GroundLink.Number.Decimal
import GroundLink.Toml.Node
import GroundLink.Toml.Text

/-! Numbers and dates of a TOML text. An integer is one that fits 64 bits, a float one that is not
too large for a double; digits may have single underscores between them. A date only has to be one:
what it says is not kept. -/

namespace GroundLink.Toml

/-- Reads digits with single underscores between them; at least one digit. -/
def digitsOf (isDigit : Char → Bool) : Reader (List Char)
  | [] => none
  | c :: rest =>
    if !isDigit c then none
    else
      match rest with
      | '_' :: rest => (digitsOf isDigit rest).map fun (ds, rest) => (c :: ds, rest)
      | rest =>
        match digitsOf isDigit rest with
        | some (ds, rest) => some (c :: ds, rest)
        | none => some ([c], rest)

def decimals : Reader (List Char) := digitsOf Char.isDigit

/-- Reads decimal digits of which the first is zero only if it is the last. -/
def wholeDigits : Reader (List Char)
  | '0' :: rest => some (['0'], rest)
  | s => decimals s

/-- Reads a sign; whether it was a minus. -/
def sign : List Char → Bool × List Char
  | '-' :: rest => (true, rest)
  | '+' :: rest => (false, rest)
  | s => (false, s)

def digitValue (c : Char) : Nat :=
  if c.isDigit then c.toNat - 48 else if 'a' ≤ c then c.toNat - 87 else c.toNat - 55

def valueIn (base : Nat) (digits : List Char) : Nat := digits.foldl (fun n c => n * base + digitValue c) 0

def integer? (i : Int) : Option Node :=
  if Int64.minValue.toInt ≤ i ∧ i ≤ Int64.maxValue.toInt then some (.integer i) else none

/-- Reads the power of ten of a float, if there is one. -/
def power : List Char → Option (Option Int × List Char)
  | c :: rest =>
    if c = 'e' || c = 'E' then
      let (negative, rest) := sign rest
      (decimals rest).map fun (ds, rest) =>
        let n : Int := valueIn 10 ds
        (some (if negative then -n else n), rest)
    else some (none, c :: rest)
  | [] => some (none, [])

/-- Reads the digits behind the point, if there is one. -/
def places : List Char → Option (Option (List Char) × List Char)
  | '.' :: rest => (decimals rest).map fun (ds, rest) => (some ds, rest)
  | s => some (none, s)

/-- A float unless it is infinite without having been written so. -/
def float? (negative : Bool) (digits : Nat) (power : Int) : Option Node :=
  let x := Decimal.readDouble negative digits power
  if x.isInfinite && !negative then none else some (.float x)

/-- Reads an integer in decimal digits, or a float. -/
def decimalNumber : Reader Node := fun s =>
  let (negative, s) := sign s
  match wholeDigits s with
  | none => none
  | some (whole, rest) =>
    match places rest with
    | none => none
    | some (fraction, rest) =>
      match power rest with
      | none => none
      | some (exponent, rest) =>
        if fraction.isNone && exponent.isNone then
          let n : Int := valueIn 10 whole
          (integer? (if negative then -n else n)).map fun n => (n, rest)
        else
          let digits := whole ++ fraction.getD []
          let shift : Int := exponent.getD 0 - (fraction.getD []).length
          (float? negative (valueIn 10 digits) shift).map fun x => (x, rest)

def basedNumber (base : Nat) (isDigit : Char → Bool) : Reader Node := fun s =>
  match digitsOf isDigit s with
  | none => none
  | some (ds, rest) => (integer? (valueIn base ds)).map fun n => (n, rest)

/-- Reads infinity or "not a number", with or without a sign. -/
def specialFloat : Reader Node := fun s =>
  match sign s with
  | (negative, 'i' :: 'n' :: 'f' :: rest) => some (.float (.infinite negative), rest)
  | (negative, 'n' :: 'a' :: 'n' :: rest) =>
    some (.float (.ofParts negative Format.double.quiet), rest)
  | _ => none

/-- Reads so many decimal digits and holds them against bounds. -/
def field (width low high : Nat) : Reader Nat := fun s =>
  let ds := s.take width
  let n := valueIn 10 ds
  if ds.length = width && ds.all Char.isDigit && low ≤ n && n ≤ high then some (n, s.drop width) else none

def expect (c : Char) : List Char → Option (List Char)
  | d :: rest => if c = d then some rest else none
  | [] => none

/-- The number of days of a month. -/
def daysIn (year month : Nat) : Nat :=
  if month = 2 then (if year % 4 = 0 && (year % 100 ≠ 0 || year % 400 = 0) then 29 else 28)
  else if month = 4 || month = 6 || month = 9 || month = 11 then 30
  else 31

/-- Drops a calendar day. -/
def day? (s : List Char) : Option (List Char) := do
  let (year, s) ← field 4 0 9999 s
  let s ← expect '-' s
  let (month, s) ← field 2 1 12 s
  let s ← expect '-' s
  let (_, s) ← field 2 1 (daysIn year month) s
  return s

/-- Drops a time of day; its seconds may have places. -/
def time? (s : List Char) : Option (List Char) := do
  let (_, s) ← field 2 0 23 s
  let s ← expect ':' s
  let (_, s) ← field 2 0 59 s
  let s ← expect ':' s
  let (_, s) ← field 2 0 60 s
  match s with
  | '.' :: rest => if rest.head?.any Char.isDigit then return rest.dropWhile Char.isDigit else return s
  | s => return s

/-- Drops an offset from universal time. -/
def offset? : List Char → Option (List Char)
  | c :: rest =>
    if c = 'Z' || c = 'z' then some rest
    else if c = '+' || c = '-' then do
      let (_, s) ← field 2 0 23 rest
      let s ← expect ':' s
      let (_, s) ← field 2 0 59 s
      return s
    else none
  | [] => none

/-- Drops what may follow a day: a time, and then an offset. -/
def afterDay (s : List Char) : List Char :=
  match s with
  | c :: rest =>
    if c = 'T' || c = 't' || c = ' ' then
      match time? rest with
      | some rest => (offset? rest).getD rest
      | none => s
    else s
  | [] => s

def date : Reader Node := fun s =>
  match day? s with
  | some rest => some (.date, afterDay rest)
  | none => (time? s).map fun rest => (.date, rest)

def number : Reader Node := fun s =>
  match date s with
  | some r => some r
  | none =>
    match s with
    | '0' :: 'x' :: rest =>
      basedNumber 16 (fun c => c.isDigit || ('a' ≤ c && c ≤ 'f') || ('A' ≤ c && c ≤ 'F')) rest
    | '0' :: 'o' :: rest => basedNumber 8 (fun c => '0' ≤ c && c ≤ '7') rest
    | '0' :: 'b' :: rest => basedNumber 2 (fun c => c = '0' || c = '1') rest
    | s => (specialFloat s).or (decimalNumber s)

end GroundLink.Toml
