import GroundLink.Config.Basic
import GroundLink.Toml.Document
import GroundLink.Toml.Field

/-! Link configurations as TOML documents. Every key is optional and no other keys are allowed. -/

namespace GroundLink

inductive LoadError
  | unreadable
  /-- The text is no TOML document, or its keys and values do not fit. -/
  | malformed
  | invalid (error : ConfigError)
  deriving DecidableEq

namespace Config

def withEntry (c : Config) (key : String) (n : Toml.Node) : Option Config :=
  open Toml.Field in
  match key with
  | "timeout_s" => (double n).map fun x => { c with timeout := x }
  | "command_retries" => (natural UInt32.size n).map fun x => { c with commandRetries := UInt32.ofNat x }
  | "mission_retries" => (natural UInt32.size n).map fun x => { c with missionRetries := UInt32.ofNat x }
  | "poll_interval_connected_ms" =>
    (natural UInt64.size n).map fun x => { c with pollConnected := UInt64.ofNat x }
  | "poll_interval_idle_ms" => (natural UInt64.size n).map fun x => { c with pollIdle := UInt64.ofNat x }
  | "own_system_id" =>
    (natural UInt8.size n).map fun x => { c with own := { c.own with system := UInt8.ofNat x } }
  | "own_component_id" =>
    (natural UInt8.size n).map fun x => { c with own := { c.own with component := UInt8.ofNat x } }
  | "command_debugging" => (boolean n).map fun x => { c with commandDebugging := x }
  | "mission_debugging" => (boolean n).map fun x => { c with missionDebugging := x }
  | _ => none

/-- The configuration a document describes, valid or not. -/
def ofDocument? (es : Toml.Entries) : Option Config :=
  es.foldlM (fun c (key, n) => c.withEntry key n) default

def ofText (text : String) : Except LoadError Config :=
  match Toml.parse? text >>= ofDocument? with
  | none => .error .malformed
  | some c =>
    match c.fault? with
    | some e => .error (.invalid e)
    | none => .ok c

/-- A valid configuration from the bytes of a file, which may be missing. -/
def ofFile (bytes : Option ByteArray) : Except LoadError Config :=
  match bytes >>= String.fromUTF8? with
  | none => .error .unreadable
  | some text => ofText text

end Config

end GroundLink
