import GroundLink.Tool.Run

/-! The mission tool on the command line. It has no network of its own: no vehicle can be reached, and
every message is refused. -/

namespace GroundLink.Tool

def contents (paths : List String) : IO (List (String × ByteArray)) :=
  paths.filterMapM fun (path : String) => do
    match ← (IO.FS.readBinFile path).toBaseIO with
    | .ok bytes => return some (path, bytes)
    | .error _ => return none

def Complaint.text : Complaint → String
  | nothing => ""
  | line text => text ++ "\n"
  | lines => "Error: the arguments or a file they name cannot be used\n"

end GroundLink.Tool

open GroundLink.Tool in
def main (args : List String) : IO UInt32 := do
  let files ← contents (filesOf args)
  let exit := run
    { read := fun path => files.lookup path
      environment :=
        (← IO.getEnv "WAYLINK_COMMAND_DEBUGGING", ← IO.getEnv "WAYLINK_MISSION_TRANSFER_DEBUGGING")
      network := .unreachable
      neighbour := none }
    args
  (← IO.getStdout).putStr exit.output
  (← IO.getStderr).putStr exit.complaint.text
  return exit.code.toUInt32
