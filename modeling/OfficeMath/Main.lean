import OfficeMath.CommandLine

/-!
# The program

What `OfficeMath.CommandLine` asks of the outside world: arguments, files, the standard input, and
the place to print to.
-/

namespace OfficeMath

/-- The bytes of a stream up to its end. -/
partial def readAll (stream : IO.FS.Stream) (bytes : ByteArray) : IO ByteArray := do
  let chunk ← stream.read 65536
  if chunk.isEmpty then return bytes else readAll stream (bytes ++ chunk)

/-- The bytes of a file, if it can be read. -/
def readFile? (file : String) : IO (Option ByteArray) := do
  try
    return some (← IO.FS.readBinFile file)
  catch _ => return none

/-- What is reported about a run besides its result. -/
def Ending.report : Ending → List String
  | .converted _ notes => notes.map Note.message
  | .unclosed error => [error.headline, error.label]
  | .badSettings file .unreadable => ["Failed to load '" ++ file ++ "': it cannot be read"]
  | .badSettings file .malformed => ["Failed to load '" ++ file ++ "': it is not a settings file"]
  | .badInput => ["The formula is not text"]
  | .refused .badUsage => ["Bad usage; see --help"]
  | .refused _ => []

end OfficeMath

open OfficeMath in
/-- Run the program. -/
def main (arguments : List String) : IO UInt32 := do
  let options := (Options.parse arguments).toOption.getD {}
  let contents ← match options.config with
    | some file => readFile? file
    | none => pure none
  let input ← if options.formula.isSome then pure ByteArray.empty
    else match Options.parse arguments with
      | .ok _ => readAll (← IO.getStdin) ByteArray.empty
      | .error _ => pure ByteArray.empty
  let ending := runProgram arguments (fun _ => contents) (fun _ => input)
  IO.print ending.output
  for line in ending.report do
    IO.eprintln line
  return ending.exitCode.toUInt32
