import FiniteAutomata.CommandLine.Console
import FiniteAutomata.CommandLine.FileTree

/-!
# Sessions

A session is all that a command can see and change, as a plain value: files, devices, and the
standard streams. It has no terminal.

* `Session.start` — a session before a command.
* `Session.readFile`, `Session.writeFile` — access to files and devices.
* `Session.console` — the console that works on a session.
-/

namespace FiniteAutomata

/-- Files with the devices, and the standard streams. -/
structure Session where
  files : FileTree
  /-- What can still be read from the standard input. -/
  input : ByteArray
  /-- What has been written to the standard output. -/
  output : String
  /-- What has been written to the standard error stream. -/
  errors : String

namespace Session

/-- A session with these files, in which nothing has been written yet. -/
def start (files : List (String × ByteArray)) (input : ByteArray) : Session :=
  ⟨.ofFiles files, input, "", ""⟩

/-! ## Streams -/

/-- Reads all of the standard input. -/
def readInput : StateM Session ByteArray := fun s => (s.input, { s with input := .empty })

/-- Writes to the standard output. -/
def print (text : String) : StateM Session Unit := fun s =>
  ((), { s with output := s.output ++ text })

/-- Writes to the standard error stream. -/
def printError (text : String) : StateM Session Unit := fun s =>
  ((), { s with errors := s.errors ++ text })

/-! ## Files and devices -/

/-- Reads from a device. There is something to read only on the standard input. -/
def readDevice : Device → StateM Session (Except FileError FileContents)
  | .input => return .ok (.bytes (← readInput))
  | .terminal => return .error .noDevice
  | _ => return .ok (.bytes .empty)

/-- Writes to a device. The standard output and the standard error stream keep what they have been
given before. -/
def writeDevice (text : String) : Device → StateM Session (Except WriteError Unit)
  | .null => return .ok ()
  | .input => return .ok ()
  | .output => return .ok (← print text)
  | .errors => return .ok (← printError text)
  | .full => return .error (.write .noSpace)
  | .terminal => return .error (.create .noDevice)

/-- Reads a file or a device. -/
def readFile (path : String) : StateM Session (Except FileError FileContents) := do
  match (← get).files.find path with
  | .error error => return .error error
  | .ok none => return .ok (.unreadable .isDirectory)
  | .ok (some (.file bytes)) => return .ok (.bytes bytes)
  | .ok (some (.device device)) => readDevice device

/-- Writes to a device, or a file. -/
def writeFile (path text : String) : StateM Session (Except WriteError Unit) := do
  match (← get).files.place path with
  | .error error => return .error (.create error)
  | .ok path =>
    match (← get).files.get? path with
    | some (.device device) => writeDevice text device
    | _ =>
      modify fun s => { s with files := s.files.insert path (.file text.toUTF8) }
      return .ok ()

/-- The console that works on a session. -/
def console : Console (StateM Session) := ⟨readFile, writeFile, readInput, print, printError⟩

end Session

end FiniteAutomata
