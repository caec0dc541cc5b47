import DocTypes.CommandLine.Run

/-!
# The command line program

Reads the manifest that the arguments name, from a file or from standard input, and shows the
outcome of the command.
-/

namespace DocTypes.CommandLine

/-- What can be read under the `name` of a manifest, as `load_factory` reads it; a dash is the
standard input. -/
def readManifest (name : String) : IO (Option String) := do
  try
    if name = "-" then return some (← (← IO.getStdin).readToEnd)
    else return some (← IO.FS.readFile name)
  catch _ => return none

end DocTypes.CommandLine

open DocTypes.CommandLine in
/-- Runs the command line and shows its `Outcome`. -/
def main (arguments : List String) : IO UInt32 := do
  let text ← match Command.ofArguments? arguments with
    | some command => readManifest command.manifest
    | none => pure none
  let outcome := run arguments fun _ => text
  IO.print outcome.output
  IO.eprint outcome.complaint
  return outcome.exitStatus.toUInt32
