import RecipeDesk.Command.Arguments

/-!
# The program

Reads the files that a command needs, carries it out, and writes what it leaves behind.
-/

open RecipeDesk RecipeDesk.Command

/-- Read a file from disk. -/
def readFromDisk (file : String) : IO (Except ReadFault String) := do
  try
    return textOfBytes (← IO.FS.readBinFile file)
  catch error =>
    match error with
    | .noFileOrDirectory .. => return .error .notFound
    | .inappropriateType .. => return .error .isDirectory
    | _ => return .error (.other (toString error))

/-- Carry out the command line. -/
def main (arguments : List String) : IO UInt32 := do
  match Invocation.ofArguments? arguments with
  | none =>
    (← IO.getStderr).putStr usage
    return 2
  | some invocation =>
    let contents ← invocation.files.mapM fun file => return (file, ← readFromDisk file)
    let read : FileReader := fun file => (contents.lookup file).getD (.error .notFound)
    let output := invocation.run read
    (← IO.getStdout).putStr output.stdout
    (← IO.getStderr).putStr output.stderr.escaped
    match output.failure with
    | none => return 0
    | some fault =>
      (← IO.getStderr).putStr ("error: " ++ fault.message ++ "\n")
      return 1
