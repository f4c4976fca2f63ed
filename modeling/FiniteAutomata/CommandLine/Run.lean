import FiniteAutomata.Automaton.Determinize
import FiniteAutomata.Automaton.Profile
import FiniteAutomata.Automaton.Reader
import FiniteAutomata.Automaton.Writer
import FiniteAutomata.CommandLine.Console
import FiniteAutomata.CommandLine.Request
import FiniteAutomata.ExpressionStore.OfText

/-!
# The commands

Each command is run on a console. A command stops at its first error; what it has written by then
stays written. The exit code is 0 if all went well, 1 after an error, and 2 if the arguments are
refused.

* `Command.run` — what a command does.
* `CommandLine.run` — what the program does with its arguments.
-/

namespace FiniteAutomata

/-- Why a command stops. -/
inductive CommandError
  | cannotOpen (file : String) (error : FileError)
  | cannotRead (file : String) (error : ReadError)
  | cannotCreate (file : String) (error : FileError)
  /-- A file has been created, but cannot be written. Users are not told which. -/
  | cannotWrite (error : FileError)
  /-- A file holds no automaton. -/
  | format (error : FormatError)
  /-- A text does not lead to expressions. -/
  | compile (error : CompileError)
  /-- An automaton has to be deterministic and is not. -/
  | nondeterministic (file : String)
  /-- There are no instructions, hence no last expression. -/
  | noExpression
  /-- The standard input cannot be read to its end. -/
  | interrupted (error : ReadError)
deriving DecidableEq

/-- What a user is told. -/
def CommandError.failure : CommandError → Failure
  | cannotOpen file error => .plain ("Cannot open " ++ file ++ ": " ++ error.message)
  | cannotRead file error => .plain ("Cannot read " ++ file ++ ": " ++ error.message)
  | cannotCreate file error => .plain ("Cannot create " ++ file ++ ": " ++ error.message)
  | cannotWrite error => .plain error.message
  | format error => error.failure
  | compile error => error.failure
  | nondeterministic file => .plain (file ++ " does not contain a deterministic automaton")
  | noExpression => .plain "The input contains no expression"
  | interrupted error => .plain error.message

namespace Command

variable {m : Type → Type} [Monad m]

/-- A step of a command, which may stop it. -/
abbrev Step (m : Type → Type) := ExceptT CommandError m

/-! ## Files -/

/-- Reads the lines of a file. -/
def readLines (console : Console m) (file : String) : Step m Input := do
  match ← console.readFile file with
  | .ok contents => return .ofContents contents
  | .error error => throw (.cannotOpen file error)

/-- Reads an automaton. -/
def readAutomaton (console : Console m) (kind : Kind) (file : String) : Step m Automaton := do
  match Automaton.read kind (← readLines console file) with
  | .ok reading => return reading.automaton
  | .error refusal => throw (.format refusal.error)

/-- Reads an automaton that has to be deterministic. -/
def readDeterministic (console : Console m) (file : String) : Step m Automaton := do
  let A ← readAutomaton console .deterministic file
  if A.isDeterministic then return A else throw (.nondeterministic file)

/-- Writes an automaton. -/
def writeAutomaton (console : Console m) (file : String) (A : Automaton) : Step m Unit := do
  match ← console.writeFile file A.write with
  | .ok () => return ()
  | .error (.create error) => throw (.cannotCreate file error)
  | .error (.write error) => throw (.cannotWrite error)

/-- Reads the first line of a file, which is empty if the file is. All of the file has to be
readable. -/
def readFirstLine (console : Console m) (file : String) : Step m String := do
  match ← console.readFile file with
  | .error error => throw (.cannotRead file (.unreadable error))
  | .ok contents =>
    let input := Input.ofContents contents
    match input.error with
    | some error => throw (.cannotRead file error)
    | none => return input.lines.head?.getD ""

/-! ## Results -/

/-- Writes the automaton of the last expression, and the deterministic one for it. If no file is
named, the deterministic one is printed. -/
def writeOutputs (console : Console m) (outputs : Outputs) (store : ExpressionStore) :
    Step m Unit := do
  let some nfa := store.final? | throw .noExpression
  if let some file := outputs.nfa then writeAutomaton console file nfa
  match outputs with
  | ⟨_, some file⟩ => writeAutomaton console file nfa.determinize
  | ⟨none, none⟩ => console.print nfa.determinize.write
  | ⟨some _, none⟩ => return ()

/-- The expressions, or the error. -/
def expressions (result : Except CompileError ExpressionStore) : Step m ExpressionStore :=
  match result with
  | .ok store => pure store
  | .error error => throw (.compile error)

/-- The verdict on a word, on a line of its own. -/
def verdict (A : Automaton) (word : String) : String :=
  if A.walks word then "ACCEPT\n" else "REJECT\n"

/-- The description of an automaton. -/
def describe (A : Automaton) : String :=
  "Number of states: " ++ toString A.states.size ++ "\n" ++
    "Number of transitions: " ++ toString A.edges.size ++ "\n" ++
    "Symbols: " ++ ", ".intercalate A.letters.toList ++ "\n" ++
    "Initial states: " ++ A.initial.render Text.quote ++ "\n" ++
    "Final states: " ++ A.final.render Text.quote ++ "\n" ++
    "Deterministic: " ++ toString A.isDeterministic ++ "\n"

/-! ## Running -/

/-- Prints the verdicts on the lines of the standard input, up to one that cannot be decoded. -/
def acceptInput (console : Console m) (A : Automaton) : Step m Unit := do
  let input := Input.ofBytes (← console.readInput)
  console.print (String.join (input.lines.map (verdict A)))
  if let some error := input.error then throw (.interrupted error)

/-- Runs a command. -/
def run (console : Console m) : Command → Step m Unit
  | compile regex fromFile outputs => do
    let text ← if fromFile then readFirstLine console regex else pure regex
    writeOutputs console outputs (← expressions (ExpressionStore.ofRegex text))
  | build instructions outputs => do
    let input ← readLines console instructions
    writeOutputs console outputs (← expressions (ExpressionStore.ofInput input))
  | convert nfa dfa => do
    let A ← readAutomaton console .nondeterministic nfa
    writeAutomaton console dfa A.determinize
  | accept dfa words => do
    let A ← readDeterministic console dfa
    if words.isEmpty then acceptInput console A
    else console.print (String.join (words.map (verdict A)))
  | compare left right => do
    let A ← readDeterministic console left
    let B ← readDeterministic console right
    console.print <|
      if A.resembles B then "The automata are (approximately) equivalent\n"
      else "The automata are not equivalent\n"
  | info file => do
    let A ← readAutomaton console .nondeterministic file
    console.print (describe A)

end Command

namespace CommandLine

variable {m : Type → Type} [Monad m]

/-- The name under which the program is called. -/
def programName : String := "regfa"

/-- The name and the version of the program. -/
def version : String := programName ++ " 1.0.0\n"

/-- How the program is used. -/
def usage : String :=
  "Usage: " ++ programName ++ " [-q | -v | -d | -t] COMMAND\n\n" ++
    "  compile REGEX [--from-file] [--nfa FILE] [--dfa FILE]\n" ++
    "  build INSTRUCTIONS [--nfa FILE] [--dfa FILE]\n" ++
    "  convert NFA DFA\n" ++
    "  accept DFA [WORD...]\n" ++
    "  compare LEFT RIGHT\n" ++
    "  info FILE\n"

/-- Runs the program with its arguments and returns the exit code. -/
def run (console : Console m) (args : List String) : m UInt32 := do
  match Request.parse args with
  | .error error =>
    console.printError ("error: " ++ error.message ++ "\n\n" ++ usage)
    return 2
  | .ok .version =>
    console.print version
    return 0
  | .ok .help =>
    console.print usage
    return 0
  | .ok (.run command) =>
    match ← (command.run console).run with
    | .ok () => return 0
    | .error error =>
      console.printError ("Error: " ++ error.failure.report ++ "\n")
      return 1

end CommandLine

end FiniteAutomata
