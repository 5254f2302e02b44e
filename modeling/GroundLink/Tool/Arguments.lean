import GroundLink.Network.Address

/-! The command line of the mission tool: options that apply to every action, and then the action. -/

namespace GroundLink.Tool

inductive Action
  | upload (plan : String)
  | download
  | clear
  | setCurrent (seq : Int)
  | arm
  | disarm
  deriving DecidableEq, Inhabited

inductive Verb
  | upload
  | download
  | clear
  | setCurrent
  | arm
  | disarm
  deriving DecidableEq, Inhabited

/-- The options and their values, as far as they are given. -/
structure Options where
  bind : Option SocketAddress
  remote : Option SocketAddress
  targetSystem : Option UInt8
  config : Option String
  log : Option String
  deriving DecidableEq, Inhabited

def Options.unset : Options := ⟨none, none, none, none, none⟩

/-- The system to talk to; the first one unless another is given. -/
def Options.target (o : Options) : UInt8 := o.targetSystem.getD 1

inductive Topic
  | tool
  | action (verb : Verb)
  | help
  deriving DecidableEq, Inhabited

/-- Why a command line leads to no action. -/
inductive Interruption
  | help (topic : Topic)
  | version
  /-- Something is missing, superfluous, repeated or out of range. -/
  | misuse
  deriving DecidableEq, Inhabited

abbrev Parsed (α : Type) := Except Interruption α

def misused {α : Type} : Parsed α := .error .misuse

namespace Verb

def names : List (Verb × String) :=
  [(upload, "upload"), (download, "download"), (clear, "clear"), (setCurrent, "set-current"), (arm, "arm"),
    (disarm, "disarm")]

def name (v : Verb) : String := (names.lookup v).getD ""

def ofName? (s : String) : Option Verb := (names.find? (·.2 = s)).map (·.1)

theorem ofName?_name (v : Verb) : ofName? v.name = some v := by
  cases v <;> rfl

end Verb

/-- A whole number in decimal digits, with a sign or without one, if it lies within bounds. -/
def integer? (low high : Int) (text : String) : Option Int :=
  let (negative, digits) :=
    match text.toList with
    | '-' :: rest => (true, rest)
    | '+' :: rest => (false, rest)
    | s => (false, s)
  if digits.isEmpty || !digits.all Char.isDigit then none
  else
    let n : Int := digits.foldl (fun n c => n * 10 + (c.toNat - 48)) 0
    let i := if negative then -n else n
    if low ≤ i ∧ i ≤ high then some i else none

def path? (text : String) : Option String := if text.isEmpty then none else some text

namespace Options

/-- Gives an option its value. No option may be given twice. -/
def set (o : Options) (name value : String) : Parsed Options :=
  let once {α : Type} (old new : Option α) (f : α → Options) : Parsed Options :=
    match old, new with
    | none, some a => .ok (f a)
    | _, _ => misused
  match name with
  | "bind" => once o.bind (SocketAddress.ofText? value) fun a => { o with bind := some a }
  | "remote" => once o.remote (SocketAddress.ofText? value) fun a => { o with remote := some a }
  | "target-system" =>
    once o.targetSystem ((integer? 0 255 value).map fun i => UInt8.ofNat i.toNat)
      fun a => { o with targetSystem := some a }
  | "config" => once o.config (path? value) fun a => { o with config := some a }
  | "log" => once o.log (some value) fun a => { o with log := some a }
  | _ => misused

end Options

/-- How an argument looks. -/
inductive Shape
  /-- Two hyphens alone: no options come after them. -/
  | separator
  /-- Two hyphens and a name, and maybe a value behind an equals sign. -/
  | long (name : String) (value : Option String)
  | short (letters : List Char)
  | word (text : String)

def shape (text : String) : Shape :=
  match text.toList with
  | ['-', '-'] => .separator
  | '-' :: '-' :: rest =>
    let name := rest.takeWhile (· ≠ '=')
    match rest.drop name.length with
    | [] => .long (String.ofList name) none
    | _ :: value => .long (String.ofList name) (some (String.ofList value))
  | '-' :: c :: rest => .short (c :: rest)
  | _ => .word text

/-- What asking for help or, at the top, for the version by an option leads to. -/
def asked {α : Type} (topic : Topic) (s : Shape) : Parsed α :=
  match s with
  | .long "help" none => .error (.help topic)
  | .long "version" none => if topic = .tool then .error .version else misused
  | .short ('h' :: _) => .error (.help topic)
  | .short ('V' :: _) => if topic = .tool then .error .version else misused
  | _ => misused

def action (verb : Verb) (words : List String) : Parsed Action :=
  match verb, words with
  | .upload, [plan] => (path? plan).elim misused fun plan => .ok (.upload plan)
  | .download, [] => .ok .download
  | .clear, [] => .ok .clear
  | .setCurrent, [seq] =>
    (integer? Int32.minValue.toInt Int32.maxValue.toInt seq).elim misused fun seq => .ok (.setCurrent seq)
  | .arm, [] => .ok .arm
  | .disarm, [] => .ok .disarm
  | _, _ => misused

def arity : Verb → Nat
  | .upload | .setCurrent => 1
  | _ => 0

/-- An action from what follows its word: its own words, and options up to a separator. -/
def actionFrom (verb : Verb) (words : List String) : List String → Parsed Action
  | [] => action verb words
  | a :: rest =>
    match shape a with
    | .separator => action verb (words ++ rest)
    | .word w => if words.length < arity verb then actionFrom verb (words ++ [w]) rest else misused
    | s =>
        if words.isEmpty then asked (.action verb) s
          else action verb words >>= fun _ => asked (.action verb) s

/-- The page of help that some words name. -/
def helpPage : List String → Topic → Parsed Topic
  | [], topic => .ok topic
  | w :: rest, topic =>
    if topic ≠ .tool then misused
    else if w = "help" then helpPage rest .help
    else (Verb.ofName? w).elim misused fun v => helpPage rest (.action v)

/-- An option whose value has come, but was not looked at yet. -/
abbrev Pending := Option (String × String)

def flush (o : Options) : Pending → Parsed Options
  | none => .ok o
  | some (name, value) => o.set name value

/-- The action, once its word has come. An option before it is only looked at after the words behind it. -/
def finish (o : Options) (pending : Pending) (verb : Verb) (rest : List String) :
    Parsed (Options × Action) := do
  let a ← actionFrom verb [] rest
  return (← flush o pending, a)

def optionNames : List String := ["bind", "remote", "target-system", "config", "log"]

def parseFrom (o : Options) (pending : Pending) : List String → Parsed (Options × Action)
  | [] => misused
  | a :: rest =>
    match shape a with
    | .separator => misused
    | .word w =>
      if w = "help" then do
        let topic ← helpPage rest .tool
        .error (.help topic)
      else
        match Verb.ofName? w with
        | none => misused
        | some verb => finish o pending verb rest
    | .long name value? =>
      match flush o pending with
      | .error e => .error e
      | .ok o =>
        if name ∉ optionNames then asked .tool (.long name value?)
        else
          match value?, rest with
          | some value, rest =>
            match o.set name value with
            | .error e => .error e
            | .ok o => parseFrom o none rest
          | none, [] => misused
          | none, value :: rest =>
            match shape value with
            | .word value => parseFrom o (some (name, value)) rest
            | _ => misused
    | s =>
      match flush o pending with
      | .error e => .error e
      | .ok _ => asked .tool s

def parse (args : List String) : Parsed (Options × Action) := parseFrom .unset none args

end GroundLink.Tool
