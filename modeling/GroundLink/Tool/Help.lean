import GroundLink.Tool.Arguments

/-! The pages of help of the mission tool. -/

namespace GroundLink.Tool

def programName : String := "waylink-mission"

def versionLine : String := programName ++ " 0.1.0\n"

def page (lines : List String) : String := String.join (lines.map (· ++ "\n"))

/-- The lines of a table: spellings in a column as wide as the longest, and their explanations. -/
def table (rows : List (String × String)) : List String :=
  let width := (rows.map (·.1.length)).foldl max 0
  rows.map fun (spelling, explanation) =>
    "  " ++ spelling ++ String.ofList (List.replicate (width + 2 - spelling.length) ' ') ++ explanation

def Verb.purpose : Verb → String
  | upload => "Upload a mission plan"
  | download => "Download and print the mission"
  | clear => "Clear the mission"
  | setCurrent => "Set the current mission item"
  | arm => ""
  | disarm => ""

/-- The placeholder for the word an action takes. -/
def Verb.placeholder : Verb → Option String
  | upload => some "<PLAN>"
  | setCurrent => some "<SEQ>"
  | _ => none

def helpOption : String × String := ("-h, --help", "Print help")

def options : List (String × String) :=
  [("    --bind <BIND>", "Local UDP address to bind [default: 0.0.0.0:14550]"),
    ("    --remote <REMOTE>", "Vehicle address. Learned from the first datagram when omitted"),
    ("    --target-system <TARGET_SYSTEM>", "[default: 1]"),
    ("    --config <PATH>", "TOML link configuration"),
    ("    --log <LOG>", "Log filter used when RUST_LOG is unset [default: info]"), helpOption,
    ("-V, --version", "Print version")]

def commands : List (String × String) :=
  Verb.names.map (fun (v, name) => (name, v.purpose))
    ++ [("help", "Print this message or the help of the given subcommand(s)")]

def toolPage : String :=
  page <|
    ["MAVLink mission and command tool", "", "Usage: " ++ programName ++ " [OPTIONS] <COMMAND>",
      "", "Commands:"]
      ++ table commands ++ ["", "Options:"] ++ table options

def actionPage (v : Verb) : String :=
  let about := if v.purpose.isEmpty then [] else [v.purpose, ""]
  let words : List String :=
    match v.placeholder with
    | none => []
    | some word => "Arguments:" :: table [(word, "")] ++ [""]
  let usage := programName ++ " " ++ v.name ++ (v.placeholder.elim "" (" " ++ ·))
  page (about ++ ["Usage: " ++ usage, ""] ++ words ++ "Options:" :: table [helpOption])

def helpOnHelp : String :=
  page <|
    ["Print this message or the help of the given subcommand(s)", "",
      "Usage: " ++ programName ++ " help [COMMAND]...", "", "Arguments:"] ++
      table [("[COMMAND]...", "Print help for the subcommand(s)")]

def helpText : Topic → String
  | .tool => toolPage
  | .action v => actionPage v
  | .help => helpOnHelp

end GroundLink.Tool
