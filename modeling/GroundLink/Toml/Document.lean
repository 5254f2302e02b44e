import GroundLink.Toml.Number

/-! Values and documents. Values nest in arrays and inline tables; a document is a run of lines, each
of which is empty, defines a key in the table that is open, or opens another table. -/

namespace GroundLink.Toml

def maxNesting : Nat := 79

mutual

/-- Reads a value; `nesting` more arrays and inline tables may be opened inside it. -/
def value (nesting : Nat) : Nat → Reader Node
  | 0, _ => none
  | fuel + 1, s =>
    match s with
    | [] => none
    | c :: rest =>
      if c = '"' || c = '\'' then (string s).map fun (text, rest) => (.string text, rest)
      else if c = '[' then
        if nesting = 0 then none
        else (elements (nesting - 1) fuel rest).map fun (items, rest) => (.array items, rest)
      else if c = '{' then
        if nesting = 0 then none
        else
          match skipBlanks rest with
          | '}' :: rest => some (.inline false [], rest)
          | rest =>
            (pairs (nesting - 1) fuel [] rest).map fun (entries, rest) => (.inline false entries, rest)
      else
        match s with
        | 't' :: 'r' :: 'u' :: 'e' :: rest => some (.boolean true, rest)
        | 'f' :: 'a' :: 'l' :: 's' :: 'e' :: rest => some (.boolean false, rest)
        | s => number s

/-- Reads the elements of an array up to its closing bracket; a comma may follow the last. -/
def elements (nesting : Nat) : Nat → Reader (List Node)
  | 0, _ => none
  | fuel + 1, s =>
    match skipEmpty true s with
    | ']' :: rest => some ([], rest)
    | s =>
      match value nesting fuel s with
      | none => none
      | some (item, rest) =>
        match skipEmpty true rest with
        | ']' :: rest => some ([item], rest)
        | ',' :: rest => (elements nesting fuel rest).map fun (items, rest) => (item :: items, rest)
        | _ => none

/-- Reads the pairs of an inline table up to its closing brace, all on one line. -/
def pairs (nesting : Nat) : Nat → Entries → Reader Entries
  | 0, _, _ => none
  | fuel + 1, entries, s =>
    match key s with
    | some ((path, last), '=' :: rest) =>
      match value nesting fuel (skipBlanks rest) with
      | none => none
      | some (item, rest) =>
        match entries.addPair path last item with
        | none => none
        | some entries =>
          match skipBlanks rest with
          | '}' :: rest => some (entries, rest)
          | ',' :: rest => pairs nesting fuel entries rest
          | _ => none
    | _ => none

end

/-- A document that is being read, and the place of the table that is open. -/
structure Draft where
  root : Entries
  place : List String

namespace Draft

def initial : Draft := ⟨[], []⟩

/-- Reads one statement: the header of a table or of an element, or a line that defines a key. The
text has at most `size` characters. -/
def statement (size : Nat) (d : Draft) (s : List Char) : Option (Draft × List Char) :=
  match s with
  | '[' :: '[' :: rest =>
    match key rest with
    | some ((path, last), ']' :: ']' :: rest) => do
      let root ← d.root.openElement path last
      let rest ← endOfLine? rest
      return (⟨root, path ++ [last]⟩, rest)
    | _ => none
  | '[' :: rest =>
    match key rest with
    | some ((path, last), ']' :: rest) => do
      let root ← d.root.openTable path last
      let rest ← endOfLine? rest
      return (⟨root, path ++ [last]⟩, rest)
    | _ => none
  | s =>
    match key s with
    | some ((path, last), '=' :: rest) => do
      let (item, rest) ← value maxNesting (2 * size + 2) (skipBlanks rest)
      let rest ← endOfLine? rest
      let root ← d.root.addLine d.place path last item
      return ({ d with root }, rest)
    | _ => none

def statements : Nat → Draft → List Char → Option Draft
  | 0, _, _ => none
  | fuel + 1, d, s =>
    match skipLines true (fuel + 1) s with
    | [] => some d
    | s =>
      match d.statement fuel s with
      | none => none
      | some (d, rest) => statements fuel d rest

end Draft

/-- Reads a document; a byte order mark may stand in front. -/
def parse? (text : String) : Option Entries :=
  let s := text.toList
  let s := if s.head? = some '\ufeff' then s.tail else s
  (Draft.initial.statements (s.length + 1) s).map (·.root)

end GroundLink.Toml
