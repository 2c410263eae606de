import Dataflow.CommandLine

/-! # The program

    Reads the files that the arguments name and prints the outcome. -/

open Dataflow

/-- The content of a file, if it can be read as text. -/
def readFile? (name : String) : IO (Option String) := do
  try
    return some (← IO.FS.readFile name)
  catch _ => return none

/-- Carry out the command that the arguments spell. -/
def main (args : List String) : IO UInt32 := do
  let names := ((CommandLine.read args).map CommandLine.Command.files).getD []
  let files ← names.mapM fun name => do return (name, ← readFile? name)
  let outcome := CommandLine.run args fun name => (files.lookup name).join
  IO.print outcome.output
  if outcome.status = 2 then
    IO.eprintln "error: unexpected arguments"
  else if outcome.status ≠ 0 then
    IO.eprintln "Error: compilation failed"
  return outcome.status.toUInt32
