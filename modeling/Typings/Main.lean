import Typings.Cli.Run

/-!
# The command

Reads the files that the arguments name and the standard input, makes the run, and carries out what
it leaves behind.
-/

namespace Typings.Cli

/-- The content of a file, if it can be read. -/
def readFile? (path : String) : IO (Option (List UInt8)) := do
  try
    let bytes ← IO.FS.readBinFile path
    pure (some bytes.toList)
  catch _ => pure none

/-- Writing a file: whether that succeeded. -/
def writeFile? (path text : String) : IO Bool := do
  try
    IO.FS.writeFile path text
    pure true
  catch _ => pure false

/-- The files that a command reads. -/
def Command.paths : Command → List String
  | .run o => o.mappingFiles ++ o.inputFile.toList
  | _ => []

/-- The command reads the standard input. -/
def Command.readsStdin : Command → Bool
  | .run o => o.inputFile.isNone
  | _ => false

/-- Printing what a run left behind, and its exit code. -/
def finish (outcome : Outcome) : IO UInt32 := do
  (← IO.getStdout).putStr outcome.stdout
  (← IO.getStderr).putStr outcome.stderr
  match outcome.ending with
  | .exit code => pure code.toUInt32
  | .crash crash => do
    (← IO.getStderr).putStrLn crash.message
    pure 1

/-- The run of the arguments in a world in which all files can be written; if its file cannot be
written after all, the run is that in a world in which none can. -/
def runIn (read : String → Option (List UInt8)) (stdin : List UInt8) (args : List String) :
    IO UInt32 := do
  let world : Bool → World := fun writable =>
    { read := read, writable := fun _ => writable, stdin := stdin }
  let outcome := run (world true) args
  match outcome.written with
  | some (path, text) =>
    if ← writeFile? path text then finish outcome else finish (run (world false) args)
  | none => finish outcome

/-- The command line. -/
def start (args : List String) : IO UInt32 := do
  let command := Command.ofArgs lengthLimit args
  let paths := (command.toOption.map Command.paths).getD []
  let contents ← paths.mapM fun path => do pure (path, ← readFile? path)
  let readsStdin := (command.toOption.map Command.readsStdin).getD false
  let stdin ← if readsStdin then (← IO.getStdin).readBinToEnd else pure .empty
  runIn (fun path => (contents.lookup path).join) stdin.toList args

end Typings.Cli

/-- Runs the command line. -/
def main (args : List String) : IO UInt32 := Typings.Cli.start args
