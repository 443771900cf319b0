import ArmStream.Command.Program
import ArmStream.Simulation.Rig

/-!
# The command line

Reads the parameter file that the arguments name and runs the program in a simulated world where
no remote address can be reached.
-/

namespace ArmStream.Main

open Simulation

def surroundings : Command.Surroundings World :=
  { net := World.net, meanwhile := Trial.running, join := Trial.running }

def configPath? (args : List String) : Option String :=
  match Command.readRequest args with
  | .params config _ => config
  | .run config _ => config
  | _ => none

def causeOf : IO.Error → IoError
  | .inappropriateType none _ _ => .isDirectory
  | .inappropriateType (some _) _ _ => .notDirectory
  | .invalidArgument _ _ _ => .nameTooLong
  | .permissionDenied _ _ _ => .other "Permission denied (os error 13)"
  | _ => .noSuchFile

def contents (path : String) : IO (Except IoError Bytes) := do
  try
    return .ok (← IO.FS.readBinFile path).data
  catch e =>
    return .error (causeOf e)

/-- Sleeps until the process is interrupted. -/
partial def sleepOn : IO Unit := do
  IO.sleep 1000
  sleepOn

end ArmStream.Main

open ArmStream in
def main (args : List String) : IO UInt32 := do
  let file ← match Main.configPath? args with
    | some path => Main.contents path
    | none => pure (.error .noSuchFile)
  match Command.program Main.surroundings (fun _ => file) args none { reach := .nowhere } with
  | none =>
    Main.sleepOn
    return 0
  | some ending =>
    (← IO.getStdout).putStr ending.output
    (← IO.getStderr).putStr ending.complaint
    return UInt32.ofNat ending.code
