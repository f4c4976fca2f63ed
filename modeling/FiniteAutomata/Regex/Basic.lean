/-!
# Regular expressions

A regular expression as it is written: characters that stand for themselves, a space for the empty
word, parentheses, and the operators of repetition, sequence and choice. Groups are kept, so that
an expression determines its text.

* `Regex.chars` — the characters of an expression.
* `Regex.render` — the text of an expression, written without joining lists (`charsBefore`).
-/

namespace FiniteAutomata

/-- A regular expression. -/
inductive Regex
  /-- A character that stands for itself. -/
  | symbol (c : Char)
  /-- The empty word, written as a space. -/
  | epsilon
  /-- One expression followed by another. -/
  | concat (left right : Regex)
  /-- Either of two expressions. -/
  | union (left right : Regex)
  /-- Any number of repetitions. -/
  | iterate (operand : Regex)
  /-- An expression in parentheses. -/
  | group (inner : Regex)
deriving DecidableEq

namespace Regex

/-- The characters of the text of an expression. -/
def chars : Regex → List Char
  | symbol c => [c]
  | epsilon => [' ']
  | concat left right => left.chars ++ right.chars
  | union left right => left.chars ++ '|' :: right.chars
  | iterate operand => operand.chars ++ ['*']
  | group inner => '(' :: inner.chars ++ [')']

/-- The characters of the text of an expression, in front of others. -/
def charsBefore : Regex → List Char → List Char
  | symbol c, rest => c :: rest
  | epsilon, rest => ' ' :: rest
  | concat left right, rest => left.charsBefore (right.charsBefore rest)
  | union left right, rest => left.charsBefore ('|' :: right.charsBefore rest)
  | iterate operand, rest => operand.charsBefore ('*' :: rest)
  | group inner, rest => '(' :: inner.charsBefore (')' :: rest)

/-- The text of an expression. -/
def render (e : Regex) : String := String.ofList (e.charsBefore [])

end Regex

end FiniteAutomata
