import Stencil.CommandLine

/-!
# The program

Reads the file that the command names and writes what the command says.
-/

open Stencil.CommandLine

/-- The bytes of a file, if it exists. -/
def readContent (path : String) : IO (Option ByteArray) := do
  try
    return some (← IO.FS.readBinFile path)
  catch
    | .noFileOrDirectory .. => return none
    | error => throw error

/-- How many macro calls may be open at the same time. -/
def maxDepth : Nat := 1000000

def main (arguments : List String) : IO UInt32 := do
  match Command.ofArguments? arguments with
  | none =>
    IO.eprintln usage
    return 2
  | some command =>
    let content ← match command.path? with
      | some path => readContent path
      | none => pure none
    match run maxDepth content command with
    | none =>
      IO.eprintln "Error: macro calls nest too deeply"
      return 1
    | some outcome =>
      IO.print outcome.output
      IO.eprint outcome.errors
      return outcome.status
