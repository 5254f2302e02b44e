import GroundLink.Number.Binary

/-! The tree of a TOML document, and where a key with dots or the header of a table puts a value in it.
Tables remember how they came to be, for what is written out once may not be added to from elsewhere. -/

namespace GroundLink.Toml

/-- A value of a document. An inline table is implicit if only dotted keys made it. A table is
implicit if no header of its own made it, and dotted if dotted keys did. The elements of an array of
tables stand in reverse, so that the one that is open comes first. -/
inductive Node
  | string (text : String)
  | integer (value : Int)
  | float (value : Double)
  | boolean (value : Bool)
  | date
  | array (items : List Node)
  | inline (implicit : Bool) (entries : List (String × Node))
  | table (implicit dotted : Bool) (entries : List (String × Node))
  | tables (elements : List (List (String × Node)))

abbrev Entries := List (String × Node)

namespace Entries

def get? (es : Entries) (key : String) : Option Node := es.lookup key

/-- Puts a value under a key, in place of what is there. -/
def set (es : Entries) (key : String) (n : Node) : Entries :=
  if (es.lookup key).isSome then es.map fun e => if e.1 = key then (key, n) else e else es ++ [(key, n)]

/-- Puts a value under a new key of a table. A key with dots may only add to tables that such keys
made, and one without only to others. -/
def define (key : String) (value : Node) (path : List String) (dotted : Bool) (es : Entries) :
    Option Entries :=
  if dotted = path.isEmpty || (es.get? key).isSome then none else some (es ++ [(key, value)])

/-- Changes the table at the end of a path, of which `change` learns whether dotted keys made it.
Missing tables are made; of an array of tables the open one is meant. Dotted keys may not enter a table
that has a header of its own. -/
def enter (byDots : Bool) (change : Bool → Entries → Option Entries) :
    List String → Bool → Entries → Option Entries
  | [], dotted, es => change dotted es
  | key :: path, _, es =>
    match es.get? key with
    | none => (enter byDots change path byDots []).map fun sub => es.set key (.table true byDots sub)
    | some (.table implicit dotted sub) =>
      if byDots && !implicit then none
      else (enter byDots change path dotted sub).map fun sub => es.set key (.table implicit dotted sub)
    | some (.tables elements) =>
      match elements with
      | [] => none
      | last :: others =>
        (enter byDots change path false last).map fun sub => es.set key (.tables (sub :: others))
    | some _ => none

/-- The same inside an inline table, where there are only inline tables to enter. -/
def enterInline (change : Bool → Entries → Option Entries) : List String → Bool → Entries → Option Entries
  | [], dotted, es => change dotted es
  | key :: path, _, es =>
    match es.get? key with
    | none => (enterInline change path true []).map fun sub => es.set key (.inline true sub)
    | some (.inline implicit sub) =>
      if !implicit then none
      else (enterInline change path implicit sub).map fun sub => es.set key (.inline implicit sub)
    | some _ => none

/-- Adds a line `path.key = value` to the table at `place`. -/
def addLine (root : Entries) (place path : List String) (key : String) (value : Node) : Option Entries :=
  enter false (enter true (define key value path) path) place false root

/-- Opens the table `path.key`. One that is only there because others lie in it is taken up; any other
may not be opened again. -/
def openTable (root : Entries) (path : List String) (key : String) : Option Entries :=
  let change (_ : Bool) (es : Entries) : Option Entries :=
    match es.get? key with
    | none => some (es.set key (.table false false []))
    | some (.table true false sub) => some (es.set key (.table false false sub))
    | some _ => none
  enter false change path false root

/-- Opens another element of the array of tables `path.key`. -/
def openElement (root : Entries) (path : List String) (key : String) : Option Entries :=
  let change (_ : Bool) (es : Entries) : Option Entries :=
    match es.get? key with
    | none => some (es.set key (.tables [[]]))
    | some (.tables elements) => some (es.set key (.tables ([] :: elements)))
    | some _ => none
  enter false change path false root

/-- Adds a pair `path.key = value` to an inline table. -/
def addPair (es : Entries) (path : List String) (key : String) (value : Node) : Option Entries :=
  enterInline (define key value path) path false es

end Entries

namespace Node

def entries? : Node → Option Entries
  | inline _ es => some es
  | table _ _ es => some es
  | _ => none

def elements? : Node → Option (List Node)
  | array items => some items
  | tables elements => some (elements.reverse.map (table false false))
  | _ => none

end Node

end GroundLink.Toml
