import FiniteAutomata.Text.Blank
import FiniteAutomata.Failure

/-!
# Counts and indices

Numbers in the text formats are runs of ASCII digits, with white space allowed around them and no
sign. They are bounded by `Numeral.limit`; a longer run with leading zeros is still a number as
long as its value is below the limit.

* `Numeral.parse` — reads a count.
* `Numeral.parseIndex` — reads an index, a count that is not zero.
-/

namespace FiniteAutomata

/-- Why a text is refused where a number is expected. -/
inductive NumeralError
  /-- The text is not a run of digits. -/
  | malformed (text : String)
  /-- The text is zero, and an index is expected. -/
  | zero (text : String)
  /-- The value reaches the limit. -/
  | tooLarge
deriving DecidableEq

namespace NumeralError

/-- The reason why a value that is too large is refused. -/
def overflow : String := "number too large to fit in target type"

/-- The message names the text as it was given, white space included. -/
def message : NumeralError → String
  | malformed text => "could not read a natural number from '" ++ text ++ "'"
  | zero text => "index '" ++ text ++ "' is not one based"
  | tooLarge => "number out of range: " ++ overflow

/-- The errors behind the error. -/
def causes : NumeralError → List String
  | tooLarge => [overflow]
  | _ => []

/-- What a user is told. -/
def failure (e : NumeralError) : Failure := ⟨e.message, e.causes⟩

end NumeralError

namespace Numeral

/-- All numbers that are read stay below this bound: they fit into a word of 64 bits. -/
def limit : Nat := UInt64.size

/-- Reads a count. -/
def parse (text : String) : Except NumeralError Nat :=
  let digits := Text.trim text.toList
  if digits.isEmpty || digits.any (fun c => !c.isDigit) then .error (.malformed text)
  else
    let value := Nat.ofDigitChars 10 digits 0
    if value < limit then .ok value else .error .tooLarge

/-- Reads an index, counted from one. -/
def parseIndex (text : String) : Except NumeralError Nat :=
  match parse text with
  | .ok 0 => .error (.zero text)
  | answer => answer

end Numeral

end FiniteAutomata
