import FiniteAutomata.Regex.Basic
import FiniteAutomata.Regex.SyntaxError

/-!
# Reading regular expressions

Choice binds weakest, then sequence, then repetition; choice and sequence group to the left. The
text is read once from left to right. At every moment the reader either needs an operand, or holds
one that may still be repeated; what stands to the left of the operand is kept for each group that
is open, the innermost first.

* `Regex.Progress.step`, `Regex.Progress.finish` — one character, and the end of the text.
* `Regex.parse` — the expression that a text is, or the first error.
-/

namespace FiniteAutomata.Regex

/-- Whether a character does not stand for itself. -/
def isReserved (c : Char) : Bool := c == '(' || c == ')' || c == '|' || c == '*'

/-- The expression of a single character. -/
def ofChar (c : Char) : Regex := if c = ' ' then epsilon else symbol c

/-- What stands to the left of an operand, inside the group around it. -/
structure Level where
  /-- The alternatives before the last bar. -/
  alternatives : Option Regex
  /-- The factors after the last bar. -/
  factors : Option Regex
deriving DecidableEq

namespace Level

/-- Nothing stands to the left. -/
def empty : Level := ⟨none, none⟩

/-- The factors together with the operand. -/
def sequence (level : Level) (operand : Regex) : Regex :=
  match level.factors with
  | none => operand
  | some factors => concat factors operand

/-- All of the group, if the operand is the last of it. -/
def close (level : Level) (operand : Regex) : Regex :=
  match level.alternatives with
  | none => level.sequence operand
  | some alternatives => union alternatives (level.sequence operand)

end Level

/-- The state of the reader between two characters. -/
structure Progress where
  /-- What stands to the left of each open group, the innermost first. -/
  groups : List Level
  /-- What stands to the left of the operand. -/
  level : Level
  /-- The operand, or none if one is needed. -/
  operand : Option Regex
deriving DecidableEq

namespace Progress

/-- The state before the first character. -/
def start : Progress := ⟨[], .empty, none⟩

/-- Reads a character where an operand is needed. -/
def stepOperand (s : Progress) (c : Char) : Except Expectation Progress :=
  if c = '(' then .ok ⟨s.level :: s.groups, .empty, none⟩
  else if isReserved c then .error .operand
  else .ok { s with operand := some (ofChar c) }

/-- Reads a character behind an operand. -/
def stepAfter (s : Progress) (operand : Regex) (c : Char) : Except Expectation Progress :=
  if c = '*' then .ok { s with operand := some (iterate operand) }
  else if c = '|' then .ok { s with level := ⟨some (s.level.close operand), none⟩, operand := none }
  else if c = ')' then
    match s.groups with
    | [] => .error .outsideGroups
    | level :: groups => .ok ⟨groups, level, some (group (s.level.close operand))⟩
  else
    { s with level := { s.level with factors := some (s.level.sequence operand) }
             operand := none }.stepOperand c

/-- Reads a character. -/
def step (s : Progress) (c : Char) : Except Expectation Progress :=
  match s.operand with
  | none => s.stepOperand c
  | some operand => s.stepAfter operand c

/-- Ends the text. -/
def finish (s : Progress) : Except Expectation Regex :=
  match s.operand, s.groups with
  | none, _ => .error .operand
  | some _, _ :: _ => .error .insideGroup
  | some operand, [] => .ok (s.level.close operand)

/-- Reads the characters that are left, the first of which has the number `offset`, counted from
zero. An error comes with the number of the character at its place. -/
def run (s : Progress) (offset : Nat) : List Char → Except (Nat × Expectation) Regex
  | [] => s.finish.mapError fun expected => (offset, expected)
  | c :: cs =>
    match s.step c with
    | .ok s => s.run (offset + 1) cs
    | .error expected => .error (offset, expected)

end Progress

/-- Reads a regular expression. -/
def parse (text : String) : Except SyntaxError Regex :=
  (Progress.start.run 0 text.toList).mapError fun (offset, expected) => ⟨text, offset, expected⟩

end FiniteAutomata.Regex
