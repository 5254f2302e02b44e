/-! The characters of a TOML text: blanks, comments, ends of lines, keys and strings. A reader takes
what it can from the front of the text and returns it with the rest, or fails. -/

namespace GroundLink.Toml

/-- Takes something from the front of a text. -/
abbrev Reader (α : Type) := List Char → Option (α × List Char)

def isBlank (c : Char) : Bool := c = ' ' || c = '\t'

def inComment (c : Char) : Bool := c = '\t' || (' ' ≤ c && c ≠ '\x7f')

def skipBlanks (s : List Char) : List Char := s.dropWhile isBlank

/-- Drops a comment up to the end of its line, if there is one. -/
def skipComment : List Char → List Char
  | '#' :: rest => rest.dropWhile inComment
  | s => s

def newline? : List Char → Option (List Char)
  | '\n' :: rest => some rest
  | '\r' :: '\n' :: rest => some rest
  | _ => none

/-- Drops what may stand behind a statement: blanks, a comment and the end of the line or the text. -/
def endOfLine? (s : List Char) : Option (List Char) :=
  match skipComment (skipBlanks s) with
  | [] => some []
  | rest => newline? rest

/-- Drops blanks and ends of lines, and comments if there may be any; `fuel` lines at most. -/
def skipLines (comments : Bool) : Nat → List Char → List Char
  | 0, s => s
  | fuel + 1, s =>
    let s := skipBlanks s
    let s := if comments then skipComment s else s
    match newline? s with
    | some rest => skipLines comments fuel rest
    | none => s

/-- Drops all lines that hold nothing. -/
def skipEmpty (comments : Bool) (s : List Char) : List Char := skipLines comments (s.length + 1) s

def isBare (c : Char) : Bool := c.isAlphanum || c = '_' || c = '-'

/-- The character with a code given in hexadecimal digits. -/
def escaped? (digits : List Char) : Option Char :=
  if digits.all fun c => c.isDigit || ('a' ≤ c && c ≤ 'f') || ('A' ≤ c && c ≤ 'F') then
    let code := digits.foldl (fun n c =>
      n * 16 + (if c.isDigit then c.toNat - 48 else if 'a' ≤ c then c.toNat - 87 else c.toNat - 55)) 0
    if h : code.isValidChar then some (Char.ofNatAux code h) else none
  else none

def escape : Reader Char
  | 'b' :: rest => some ('\x08', rest)
  | 't' :: rest => some ('\t', rest)
  | 'n' :: rest => some ('\n', rest)
  | 'f' :: rest => some ('\x0c', rest)
  | 'r' :: rest => some ('\r', rest)
  | '"' :: rest => some ('"', rest)
  | '\\' :: rest => some ('\\', rest)
  | 'u' :: rest =>
      if (rest.take 4).length < 4 then none else (escaped? (rest.take 4)).map fun c => (c, rest.drop 4)
  | 'U' :: rest =>
      if (rest.take 8).length < 8 then none else (escaped? (rest.take 8)).map fun c => (c, rest.drop 8)
  | _ => none

def push (c : Char) (read : Option (List Char × List Char)) : Option (List Char × List Char) :=
  read.map fun (text, rest) => (c :: text, rest)

/-- Reads a string on one line up to its closing quote; `escapes` says whether a backslash has a meaning. -/
def line (quote : Char) (escapes : Bool) : Nat → Reader (List Char)
  | 0, _ => none
  | _, [] => none
  | fuel + 1, c :: rest =>
    if c = quote then some ([], rest)
    else if escapes && c = '\\' then
      match escape rest with
      | some (c, rest) => push c (line quote escapes fuel rest)
      | none => none
    else if inComment c then push c (line quote escapes fuel rest)
    else none

/-- Reads a string over several lines up to three closing quotes. One or two quotes are text, and
so are the first one or two of four or five at the end. A backslash at the end of a line drops all
blanks and ends of lines that follow. -/
def block (quote : Char) (escapes : Bool) : Nat → Reader (List Char)
  | 0, _ => none
  | _, [] => none
  | fuel + 1, c :: rest =>
    if c = quote then
      let quotes := (c :: rest).takeWhile (· = quote)
      let rest := (c :: rest).dropWhile (· = quote)
      if quotes.length < 3 then (block quote escapes fuel rest).map fun (text, rest) => (quotes ++ text, rest)
      else if quotes.length < 6 then some (quotes.drop 3, rest)
      else none
    else if escapes && c = '\\' then
      match newline? (skipBlanks rest) with
      | some rest => block quote escapes fuel (skipEmpty false rest)
      | none =>
        match escape rest with
        | some (c, rest) => push c (block quote escapes fuel rest)
        | none => none
    else
      match newline? (c :: rest) with
      | some rest => push '\n' (block quote escapes fuel rest)
      | none => if inComment c then push c (block quote escapes fuel rest) else none

/-- Reads the inside of a block string; the end of a line right after the opening is not part of it. -/
def blockBody (quote : Char) (escapes : Bool) (s : List Char) : Option (List Char × List Char) :=
  let s := (newline? s).getD s
  block quote escapes (s.length + 1) s

def string : Reader String
  | '"' :: '"' :: '"' :: rest => (blockBody '"' true rest).map fun (text, rest) => (String.ofList text, rest)
  | '\'' :: '\'' :: '\'' :: rest =>
    (blockBody '\'' false rest).map fun (text, rest) => (String.ofList text, rest)
  | '"' :: rest => (line '"' true (rest.length + 1) rest).map fun (text, rest) => (String.ofList text, rest)
  | '\'' :: rest =>
    (line '\'' false (rest.length + 1) rest).map fun (text, rest) => (String.ofList text, rest)
  | _ => none

/-- Reads a key without dots. -/
def simpleKey : Reader String
  | '"' :: rest => (line '"' true (rest.length + 1) rest).map fun (text, rest) => (String.ofList text, rest)
  | '\'' :: rest =>
    (line '\'' false (rest.length + 1) rest).map fun (text, rest) => (String.ofList text, rest)
  | s =>
    let text := s.takeWhile isBare
    if text.isEmpty then none else some (String.ofList text, s.dropWhile isBare)

/-- Reads simple keys with dots between them, and the blanks around each. -/
def keys : Nat → Reader (List String)
  | 0, _ => none
  | fuel + 1, s =>
    match simpleKey (skipBlanks s) with
    | none => none
    | some (key, rest) =>
      match skipBlanks rest with
      | '.' :: rest => (keys fuel rest).map fun (more, rest) => (key :: more, rest)
      | rest => some ([key], rest)

/-- The most simple keys there may be in a key. -/
def maxKeys : Nat := 79

/-- Reads a key: the path before its last dot, and what is behind that. -/
def key (s : List Char) : Option ((List String × String) × List Char) :=
  match keys maxKeys s with
  | none => none
  | some (path, rest) => path.getLast?.map fun last => ((path.dropLast, last), rest)

end GroundLink.Toml
