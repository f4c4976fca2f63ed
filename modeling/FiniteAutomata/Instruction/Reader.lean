import FiniteAutomata.Instruction
import FiniteAutomata.Input
import FiniteAutomata.Numeral
import FiniteAutomata.Text.Quoted

/-!
# Instructions from text

Each line of an input is one instruction. A single character is the symbol itself; an empty line
and a single space are the empty word. Longer lines have fields separated by commas: `C,i,j` puts
two expressions in sequence, `U,i,j` joins them, `I,i` and `S,i` repeat one, `D,i` takes it again.

* `Instruction.parseOperation` — what a single line holds.
* `Instruction.readAll` — the instructions in an input, or the first error.
-/

namespace FiniteAutomata

/-- Why an input does not hold instructions. -/
inductive InstructionError
  /-- The line is no instruction. -/
  | invalid (line : Line)
  /-- A field on the line should be an index. -/
  | operand (line : Nat) (error : NumeralError)
  /-- Nothing can be read behind the last instruction, though the input goes on. -/
  | interrupted (error : ReadError)
deriving DecidableEq

namespace InstructionError

/-- The message; lines are named by their number in the input. -/
def message : InstructionError → String
  | invalid line =>
    "Invalid instruction on line " ++ toString line.number ++ ": " ++ Text.quote line.text
  | operand line error => "Invalid operand on line " ++ toString line ++ ": " ++ error.message
  | interrupted error => error.message

/-- What a user is told. -/
def failure : InstructionError → Failure
  | operand line error => ⟨(operand line error).message, error.message :: error.causes⟩
  | error => .plain error.message

end InstructionError

namespace Instruction

/-- Reads a field that should be an index. -/
def parseOperand (line : Line) (field : String) : Except InstructionError Nat :=
  (Numeral.parseIndex field).mapError (.operand line.number)

/-- Reads a line of several characters. Of two bad operands the left one is the error. -/
def parseFields (line : Line) : List String → Except InstructionError Operation
  | ["C", left, right] =>
    return .concat (← parseOperand line left) (← parseOperand line right)
  | ["U", left, right] =>
    return .union (← parseOperand line left) (← parseOperand line right)
  | ["I", operand] => return .iterate (← parseOperand line operand)
  | ["S", operand] => return .iterate (← parseOperand line operand)
  | ["D", operand] => return .identity (← parseOperand line operand)
  | _ => .error (.invalid line)

/-- Reads a line. -/
def parseOperation (line : Line) : Except InstructionError Operation :=
  match line.text.toList with
  | [] => .ok (.symbol epsilon)
  | [c] => .ok (.symbol (if c = ' ' then epsilon else String.singleton c))
  | cs => parseFields line ((cs.splitOn ',').map String.ofList)

/-- Reads lines, the instructions of which are not given the text of their expressions. -/
def readLines : List Line → Except InstructionError (List Instruction)
  | [] => .ok []
  | line :: lines => do
    let operation ← parseOperation line
    let others ← readLines lines
    return ⟨operation, none⟩ :: others

/-- Reads instructions. -/
def readAll (input : Input) : Except InstructionError (List Instruction) := do
  let instructions ← readLines input.numbered
  match input.error with
  | some error => .error (.interrupted error)
  | none => return instructions

end Instruction

end FiniteAutomata
