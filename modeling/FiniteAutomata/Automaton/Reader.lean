import FiniteAutomata.Automaton.Basic
import FiniteAutomata.Input
import FiniteAutomata.Numeral

/-!
# Automata from text

Blank lines have no meaning; the others hold the number of states, the number of symbols, so many
states, so many symbols, and one edge on each line that is left. Reading stops at the first line
that is not what is expected in its place. Two things are passed over with a warning: a state that
was there before, and an edge of which an end or the symbol is unknown.

* `Automaton.parseState`, `Automaton.parseEdge` — what a single line holds.
* `Automaton.read` — the automaton in an input, or the first error.
-/

namespace FiniteAutomata

/-! ## Errors and warnings -/

/-- What a line can be expected to hold. -/
inductive Expected
  | stateCount
  | symbolCount
  | state
  | symbol
deriving DecidableEq

/-- The name of what is expected. -/
def Expected.render : Expected → String
  | stateCount => "the number of states"
  | symbolCount => "the number of symbols"
  | state => "a state"
  | symbol => "a symbol"

/-- Why an input holds no automaton. -/
inductive FormatError
  /-- There is no line where one is expected. -/
  | missing (what : Expected)
  /-- The line does not hold a number. -/
  | number (error : NumeralError)
  /-- The line does not hold a state. -/
  | invalidState (line : Line)
  /-- The line does not hold an edge. -/
  | invalidEdge (line : Line)
  /-- Nothing can be read behind the last edge, though the input goes on. -/
  | interrupted (error : ReadError)
deriving DecidableEq

namespace FormatError

/-- The message; lines are named by their number in the input. -/
def message : FormatError → String
  | missing what => "Unexpected end of input, expected " ++ what.render
  | number error => error.message
  | invalidState line => "Invalid state on line " ++ toString line.number ++ ": " ++ line.text
  | invalidEdge line => "Invalid transition on line " ++ toString line.number ++ ": " ++ line.text
  | interrupted error => error.message

/-- What a user is told. -/
def failure : FormatError → Failure
  | number error => error.failure
  | error => .plain error.message

end FormatError

/-- What has been passed over in an input. -/
inductive FormatWarning
  /-- A state of this label was there before. -/
  | duplicateState (label : Label) (line : Nat)
  /-- An end or the symbol of the edge is unknown. -/
  | unknownEdge (edge : Edge) (line : Nat)
deriving DecidableEq

/-- The warning in words. -/
def FormatWarning.message : FormatWarning → String
  | duplicateState label line =>
    "Ignoring duplicate state " ++ label ++ " on line " ++ toString line
  | unknownEdge e line =>
    "Ignoring transition " ++ Automaton.arrow e.source e.symbol e.target ++ " on line " ++
      toString line ++ ", it refers to an unknown state or symbol"

/-- An automaton that is being read, with the warnings so far, in order. -/
structure Reading where
  automaton : Automaton
  warnings : List FormatWarning

/-- An error in an input, with the warnings before it, in order. -/
structure Refusal where
  error : FormatError
  warnings : List FormatWarning

namespace Automaton

/-! ## Single lines -/

/-- The marks behind a label. -/
def parseMark : String → Option Flags
  | "I" => some .onlyInitial
  | "F" => some .onlyFinal
  | "IF" => some .both
  | "FI" => some .both
  | _ => none

/-- A label and perhaps its marks, separated and surrounded by white space. -/
def parseState (text : String) : Option (Label × Flags) :=
  match (Text.words text.toList).map String.ofList with
  | [label] => some (label, .empty)
  | [label, mark] => (parseMark mark).map fun flags => (label, flags)
  | _ => none

/-- A source, a symbol and a target, with commas between them and nowhere else. -/
def parseEdge (text : String) : Option Edge :=
  match (text.toList.splitOn ',').map String.ofList with
  | [source, symbol, target] => some ⟨source, symbol, target⟩
  | _ => none

end Automaton

/-! ## Sections of the input -/

namespace Reading

/-- Adds a state, or a warning if there is one of that label. -/
def addState (r : Reading) (label : Label) (flags : Flags) (line : Nat) : Reading :=
  if r.automaton.hasState label then
    { r with warnings := r.warnings ++ [.duplicateState label line] }
  else { r with automaton := r.automaton.addState label flags }

/-- Adds an edge, or a warning if an end or the symbol is unknown. -/
def addEdge (r : Reading) (e : Edge) (line : Nat) : Reading :=
  if r.automaton.knows e then { r with automaton := r.automaton.addEdge e }
  else { r with warnings := r.warnings ++ [.unknownEdge e line] }

/-- Ends the reading with an error. -/
def refuse {α : Type} (r : Reading) (error : FormatError) : Except Refusal α :=
  .error ⟨error, r.warnings⟩

/-- Reads a number, which is the only thing on the first of the lines. -/
def readCount (r : Reading) (what : Expected) : List Line → Except Refusal (Nat × List Line)
  | [] => r.refuse (.missing what)
  | line :: lines =>
    match Numeral.parse line.text with
    | .ok count => .ok (count, lines)
    | .error error => r.refuse (.number error)

/-- Reads so many states, and returns the lines behind them. -/
def readStates (r : Reading) : Nat → List Line → Except Refusal (Reading × List Line)
  | 0, lines => .ok (r, lines)
  | _ + 1, [] => r.refuse (.missing .state)
  | count + 1, line :: lines =>
    match Automaton.parseState line.text with
    | some (label, flags) => (r.addState label flags line.number).readStates count lines
    | none => r.refuse (.invalidState line)

/-- Reads so many symbols, and returns the lines behind them. -/
def readSymbols (r : Reading) : Nat → List Line → Except Refusal (Reading × List Line)
  | 0, lines => .ok (r, lines)
  | _ + 1, [] => r.refuse (.missing .symbol)
  | count + 1, line :: lines =>
    { r with automaton := r.automaton.addSymbol line.text }.readSymbols count lines

/-- Reads edges until there are no lines left. -/
def readEdges (r : Reading) : List Line → Except Refusal Reading
  | [] => .ok r
  | line :: lines =>
    match Automaton.parseEdge line.text with
    | some e => (r.addEdge e line.number).readEdges lines
    | none => r.refuse (.invalidEdge line)

end Reading

namespace Automaton

/-- Reads an automaton. An input that breaks off is an error even behind the last edge, since more
edges may have been meant to follow. -/
def read (kind : Kind) (input : Input) : Except Refusal Reading := do
  let r : Reading := ⟨blank kind, []⟩
  let (stateCount, lines) ← r.readCount .stateCount input.filled
  let (symbolCount, lines) ← r.readCount .symbolCount lines
  let (r, lines) ← r.readStates stateCount lines
  let (r, lines) ← r.readSymbols symbolCount lines
  let r ← r.readEdges lines
  match input.error with
  | some error => r.refuse (.interrupted error)
  | none => return r

end Automaton

end FiniteAutomata
