import FiniteAutomata.Failure

/-!
# Errors in regular expressions

A text that is no regular expression is refused at the first character, or at the end of the text,
where no continuation could mend it. The message shows the line and points to the place.

* `SyntaxError.line`, `SyntaxError.column` — the place, both counted from one.
* `SyntaxError.message` — the message.
-/

namespace FiniteAutomata

/-- What could stand at the place of an error. -/
inductive Expectation
  /-- A symbol or a group: the beginning of an operand. -/
  | operand
  /-- A continuation of an operand inside a group. -/
  | insideGroup
  /-- A continuation of an operand, or the end of the text. -/
  | outsideGroups
deriving DecidableEq

/-- The expectation in words. -/
def Expectation.render : Expectation → String
  | operand => "Iteration"
  | insideGroup => "Iteration or Star"
  | outsideGroups => "EOI, Iteration, or Star"

/-- The first place in a text where it stops being a regular expression. -/
structure SyntaxError where
  text : String
  /-- The number of characters before the place. -/
  offset : Nat
  expected : Expectation
deriving DecidableEq

namespace SyntaxError

/-- The characters before the place. -/
def before (e : SyntaxError) : List Char := e.text.toList.take e.offset

/-- The characters from the place on. -/
def after (e : SyntaxError) : List Char := e.text.toList.drop e.offset

/-- The characters before the place that are in its line. -/
def lineStart (e : SyntaxError) : List Char :=
  (e.before.reverse.takeWhile (· != '\n')).reverse

/-- The number of the line. -/
def line (e : SyntaxError) : Nat := e.before.count '\n' + 1

/-- The number of the character in its line. A carriage return is a character like any other,
unless it belongs to the end of an earlier line. -/
def column (e : SyntaxError) : Nat := e.lineStart.length + 1

/-- The line as it is shown, without the characters that would move the cursor back. -/
def shownLine (e : SyntaxError) : List Char :=
  (e.lineStart ++ e.after.takeWhile (· != '\n')).filter (· != '\r')

/-- What stands below the characters of the shown line that precede the place. A tab stands below
a tab, so that the mark comes below the place however wide tabs are. -/
def padding (e : SyntaxError) : List Char :=
  (e.shownLine.take (e.column - 1)).map fun c => if c = '\t' then '\t' else ' '

/-- The message: the place, the line with a mark below it, and what is expected. -/
def message (e : SyntaxError) : String :=
  let number := toString e.line
  let margin := String.ofList (List.replicate number.length ' ')
  "\n".intercalate
    [margin ++ "--> " ++ number ++ ":" ++ toString e.column,
      margin ++ " |",
      number ++ " | " ++ String.ofList e.shownLine,
      margin ++ " | " ++ String.ofList e.padding ++ "^---",
      margin ++ " |",
      margin ++ " = expected " ++ e.expected.render]

/-- What a user is told. -/
def failure (e : SyntaxError) : Failure := .plain e.message

end SyntaxError

end FiniteAutomata
