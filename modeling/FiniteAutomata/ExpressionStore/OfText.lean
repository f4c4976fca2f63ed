import FiniteAutomata.ExpressionStore
import FiniteAutomata.Instruction.Reader
import FiniteAutomata.Regex.Instructions
import FiniteAutomata.Regex.Parser

/-!
# Building expressions from text

Expressions come from a regular expression, or from an input that holds instructions.

* `ExpressionStore.ofRegex` — the expressions of a regular expression; the last one is all of it.
* `ExpressionStore.ofInput` — the expressions of the instructions in an input.
-/

namespace FiniteAutomata

/-- Why a text does not lead to expressions. -/
inductive CompileError
  /-- The text is no regular expression. -/
  | regex (error : SyntaxError)
  /-- The input does not hold instructions. -/
  | instruction (error : InstructionError)
  /-- An instruction cannot be carried out. -/
  | build (error : BuildError)
deriving DecidableEq

/-- What a user is told. -/
def CompileError.failure : CompileError → Failure
  | regex error => error.failure
  | instruction error => error.failure
  | build error => error.failure

namespace ExpressionStore

/-- Builds the expressions of a regular expression. -/
def ofRegex (text : String) : Except CompileError ExpressionStore := do
  let expression ← (Regex.parse text).mapError .regex
  (buildAll expression.instructions).mapError .build

/-- Builds the expressions of the instructions in an input. -/
def ofInput (input : Input) : Except CompileError ExpressionStore := do
  let instructions ← (Instruction.readAll input).mapError .instruction
  (buildAll instructions).mapError .build

end ExpressionStore

end FiniteAutomata
