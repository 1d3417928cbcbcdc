import Linewise.CommandLine

/-!
# The program

Reads the file that the arguments name and writes what the command answers.
-/

namespace Linewise.CommandLine

def open? (path : String) : IO Access := do
  try
    return .file ⟨← IO.FS.readBinFile path, 0⟩
  catch
    -- A directory in place of a file, or a file in place of a directory on the way.
    | .inappropriateType _ code _ => return if code = 21 then .directory else .notDirectory
    | .invalidArgument .. => return .nameTooLong
    | .permissionDenied .. => return .denied
    | _ => return .missing

end Linewise.CommandLine

open Linewise.CommandLine in
def main (args : List String) : IO UInt32 := do
  let outcome ← match readArgs args with
    | .ok command => do
      let found ← open? command.file
      pure (perform command found)
    | .error refusal => pure refusal.outcome
  (← IO.getStdout).putStr outcome.output
  (← IO.getStderr).putStr outcome.errors
  return outcome.exitCode.toUInt32
