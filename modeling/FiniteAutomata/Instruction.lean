import FiniteAutomata.Automaton.Basic

/-!
# Build instructions

A regular expression is built step by step. Each instruction makes one expression, from a symbol or
from expressions that were made before; these are named by their numbers, counted from one.

* `Operation` — what an instruction does.
* `Instruction` — an operation, with the text of the expression where it is known.
-/

namespace FiniteAutomata

/-- How an expression is made. Operands are numbers of earlier expressions. -/
inductive Operation
  /-- A single symbol; `epsilon` stands for the empty word. -/
  | symbol (symbol : Symbol)
  /-- One expression followed by another. -/
  | concat (left right : Nat)
  /-- Either of two expressions. -/
  | union (left right : Nat)
  /-- Any number of repetitions of an expression. -/
  | iterate (operand : Nat)
  /-- The same expression again, for instance in parentheses. -/
  | identity (operand : Nat)
deriving DecidableEq

/-- An operation with the text of the expression that it makes, where there is one. -/
structure Instruction where
  operation : Operation
  text : Option String
deriving DecidableEq

/-- The operation in a short form. -/
def Operation.render : Operation → String
  | symbol s => "'" ++ s ++ "'"
  | concat left right => toString left ++ "+" ++ toString right
  | union left right => toString left ++ "|" ++ toString right
  | iterate operand => toString operand ++ "*"
  | identity operand => "(" ++ toString operand ++ ")"

/-- The operation, and the text in brackets. -/
def Instruction.render (instruction : Instruction) : String :=
  match instruction.text with
  | some text => instruction.operation.render ++ " [" ++ text ++ "]"
  | none => instruction.operation.render

end FiniteAutomata
