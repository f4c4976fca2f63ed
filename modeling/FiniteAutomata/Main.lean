import FiniteAutomata.CommandLine.Run

/-!
# The program

The command line against the operating system.
-/

namespace FiniteAutomata

/-- The reason behind an error of the operating system. -/
def fileErrorOf : IO.Error → FileError
  | .noFileOrDirectory _ _ _ => .notFound
  | .inappropriateType _ 20 _ => .notDirectory
  | .inappropriateType _ 21 _ => .isDirectory
  | .invalidArgument _ 36 _ => .nameTooLong
  | .noSuchThing _ 6 _ => .noDevice
  | .resourceExhausted _ 28 _ => .noSpace
  | .permissionDenied _ code _ => .other ("Permission denied (os error " ++ toString code ++ ")")
  | error => .other (toString error)

/-- Runs an action on a file, and keeps the reason if it fails. -/
def attempt {α : Type} (action : IO α) : IO (Except FileError α) := do
  try return .ok (← action) catch error => return .error (fileErrorOf error)

/-- Reads an open file. -/
def readHandle (handle : IO.FS.Handle) : IO FileContents := do
  match ← attempt handle.readBinToEnd with
  | .ok bytes => return .bytes bytes
  | .error error => return .unreadable error

/-- Writes an open file, all of it before the result is known. -/
def writeHandle (handle : IO.FS.Handle) (contents : String) : IO Unit := do
  handle.putStr contents
  handle.flush

/-- The console of the operating system. -/
def systemConsole : Console IO where
  readFile name := do
    match ← attempt (IO.FS.Handle.mk name .read) with
    | .ok handle => return .ok (← readHandle handle)
    | .error error => return .error error
  writeFile name contents := do
    match ← attempt (IO.FS.Handle.mk name .write) with
    | .ok handle => return (← attempt (writeHandle handle contents)).mapError .write
    | .error error => return .error (.create error)
  readInput := do (← IO.getStdin).readBinToEnd
  print := IO.print
  printError := IO.eprint

end FiniteAutomata

/-- Runs the program. -/
def main (args : List String) : IO UInt32 :=
  FiniteAutomata.CommandLine.run FiniteAutomata.systemConsole args
