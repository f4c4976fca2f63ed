import FiniteAutomata.Regex.Basic
import FiniteAutomata.Instruction

/-!
# The instructions that build a regular expression

Every part of an expression has one instruction, which comes after those of its operands and bears
the text of the part. A group makes nothing new: it is the inner expression again under its text.

* `Regex.instructions` — the instructions of an expression; the last one makes the expression.
-/

namespace FiniteAutomata.Regex

/-- The instructions of an expression, when so many expressions have been made before. The
operands of the last instruction are the last expressions that its operands' instructions make. -/
def instructionsFrom (made : Nat) : Regex → List Instruction
  | symbol c => [⟨.symbol (String.singleton c), (symbol c).render⟩]
  | epsilon => [⟨.symbol FiniteAutomata.epsilon, epsilon.render⟩]
  | concat left right =>
    let first := left.instructionsFrom made
    let second := right.instructionsFrom (made + first.length)
    first ++ second ++ [⟨.concat (made + first.length) (made + first.length + second.length),
      (concat left right).render⟩]
  | union left right =>
    let first := left.instructionsFrom made
    let second := right.instructionsFrom (made + first.length)
    first ++ second ++ [⟨.union (made + first.length) (made + first.length + second.length),
      (union left right).render⟩]
  | iterate operand =>
    let first := operand.instructionsFrom made
    first ++ [⟨.iterate (made + first.length), (iterate operand).render⟩]
  | group inner =>
    let first := inner.instructionsFrom made
    first ++ [⟨.identity (made + first.length), (group inner).render⟩]

/-- The instructions that build an expression from nothing. -/
def instructions (e : Regex) : List Instruction := e.instructionsFrom 0

end FiniteAutomata.Regex
