/-! Addresses of datagram sockets: a numeric host of either internet version, and a port. -/

namespace GroundLink

inductive Host
  | v4 (octets : List UInt8)
  | v6 (groups : List UInt16) (scope : UInt32)
  deriving DecidableEq, Inhabited

structure SocketAddress where
  host : Host
  port : UInt16
  deriving DecidableEq, Inhabited

namespace SocketAddress

def digit? (c : Char) : Option Nat :=
  if c.isDigit then some (c.toNat - 48)
  else if 'a' ≤ c ∧ c ≤ 'f' then some (c.toNat - 87)
  else if 'A' ≤ c ∧ c ≤ 'F' then some (c.toNat - 55)
  else none

/-- The values of the digits below `base` at the front of a text, and the rest. -/
def digits (base : Nat) : List Char → List Nat × List Char
  | [] => ([], [])
  | c :: rest =>
    match (digit? c).filter (· < base) with
    | none => ([], c :: rest)
    | some d =>
      let (ds, rest) := digits base rest
      (d :: ds, rest)

/-- Reads a number below `limit`, of `longest` digits at most if that is given. -/
def number? (base limit : Nat) (longest : Option Nat) (s : List Char) : Option (Nat × List Char) :=
  let (ds, rest) := digits base s
  let n := ds.foldl (fun n d => n * base + d) 0
  if ds.isEmpty || longest.any (· < ds.length) || limit ≤ n then none else some (n, rest)

def skip? (c : Char) : List Char → Option (List Char)
  | [] => none
  | d :: rest => if d = c then some rest else none

/-- Reads an octet; it has no needless zeros in front. -/
def octet? (s : List Char) : Option (UInt8 × List Char) := do
  let (n, rest) ← number? 10 256 (some 3) s
  if s.head? = some '0' ∧ s.length ≠ rest.length + 1 then none
  return (UInt8.ofNat n, rest)

def octets? (s : List Char) : Option (List UInt8 × List Char) := do
  let (a, s) ← octet? s
  let (b, s) ← octet? (← skip? '.' s)
  let (c, s) ← octet? (← skip? '.' s)
  let (d, s) ← octet? (← skip? '.' s)
  return ([a, b, c, d], s)

/-- The two groups that four octets stand for. -/
def grouped : List UInt8 → List UInt16
  | a :: b :: rest => UInt16.ofNat (a.toNat * 256 + b.toNat) :: grouped rest
  | _ => []

/-- Reads as many groups as there are, `room` at most, with colons between them; the last two may be
written as octets, with which the groups end. -/
def groups (first : Bool) : Nat → List Char → List UInt16 × Bool × List Char
  | 0, s => ([], false, s)
  | room + 1, s =>
    match if first then some s else skip? ':' s with
    | none => ([], false, s)
    | some t =>
      match if room = 0 then none else octets? t with
      | some (os, rest) => (grouped os, true, rest)
      | none =>
        match number? 16 65536 (some 4) t with
        | none => ([], false, s)
        | some (n, rest) =>
          let (gs, ended, rest) := groups false room rest
          (UInt16.ofNat n :: gs, ended, rest)

/-- Reads eight groups; two colons stand for as many zeros as are missing, once. -/
def eight? (s : List Char) : Option (List UInt16 × List Char) :=
  let (front, ended, rest) := groups true 8 s
  if front.length = 8 then some (front, rest)
  else if ended then none
  else do
    let rest ← skip? ':' (← skip? ':' rest)
    let (back, _, rest) := groups true (7 - front.length) rest
    return (front ++ List.replicate (8 - front.length - back.length) 0 ++ back, rest)

def scope? (s : List Char) : Option (UInt32 × List Char) :=
  match s with
  | '%' :: rest => (number? 10 UInt32.size none rest).map fun (n, rest) => (UInt32.ofNat n, rest)
  | _ => some (0, s)

/-- Reads a host; one of the newer kind stands in brackets. -/
def host? : List Char → Option (Host × List Char)
  | '[' :: s => do
    let (groups, s) ← eight? s
    let (scope, s) ← scope? s
    return (.v6 groups scope, ← skip? ']' s)
  | s => (octets? s).map fun (octets, rest) => (.v4 octets, rest)

def ofText? (text : String) : Option SocketAddress := do
  let (host, s) ← host? text.toList
  let (port, s) ← number? 10 65536 none (← skip? ':' s)
  if s.isEmpty then return ⟨host, UInt16.ofNat port⟩ else none

end SocketAddress

end GroundLink
