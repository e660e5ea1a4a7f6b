import NestedTxn.CommandLine.Program

/-!
# The command line

Reads files, and prints the report of the program.
-/

open NestedTxn

/-- What `path` leads to. -/
def readContent (path : String) : IO FileContent := do
  try
    return .ok (← IO.FS.readBinFile path).toList
  catch
    -- A directory can be opened, but not read.
    | .inappropriateType _ 21 _ => return .error .directory
    | .inappropriateType .. => return .error .behindFile
    | .invalidArgument .. => return .error .nameTooLong
    | _ => return .error .missing

/-- Run the program. -/
def main (args : List String) : IO UInt32 := do
  let report ← Program.run readContent args
  IO.print report.out
  IO.eprint report.err
  return UInt32.ofNat report.code
