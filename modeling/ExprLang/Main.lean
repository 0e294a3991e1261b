import ExprLang.Cli

/-!
# The program

Reads the file that the arguments name, carries out the command and prints what it gives.
-/

open ExprLang

/-- Reads a file of the file system. -/
def readFile (path : String) : IO (Except ReadError Document) := do
  try
    let bytes ← IO.FS.readBinFile path
    return Document.ofBytes? path bytes
  catch e =>
    match e with
    -- A directory is opened and then not read, so the name is gone from the error.
    | .inappropriateType none .. => return .error .isDirectory
    | .inappropriateType (some _) .. => return .error .notADirectory
    | .invalidArgument .. => return .error .nameTooLong
    | _ => return .error .notFound

/-- Runs the command line. -/
def main (args : List String) : IO UInt32 := do
  let command := Cli.Command.ofArgs args
  let stdout ← IO.getStdout
  let style := if ← stdout.isTty then Style.coloured else Style.plain
  let file ← match command.file? with
    | some path => readFile path
    | none => pure (.error .notFound)
  let outcome := command.execute style fun _ => file
  stdout.putStr outcome.stdout
  stdout.flush
  return outcome.exit.toUInt32
