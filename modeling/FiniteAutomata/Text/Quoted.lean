import FiniteAutomata.Text.Printable

/-!
# Quoted texts

Messages quote a text so that a reader can tell every character of it: the text stands between
double quotes, and a character that would end the quotation or cannot be seen is escaped.

* `Text.quote` — the quoted form of a text.
-/

namespace FiniteAutomata.Text

/-- The digits of a number in base sixteen, lower case, most significant first. -/
def hexDigits (n : Nat) : List Char := Nat.toDigits 16 n

/-- A character inside double quotes. -/
def escape (c : Char) : List Char :=
  match c with
  | '"' => ['\\', '"']
  | '\\' => ['\\', '\\']
  | '\x00' => ['\\', '0']
  | '\t' => ['\\', 't']
  | '\n' => ['\\', 'n']
  | '\r' => ['\\', 'r']
  | c => if isPrintable c then [c] else ['\\', 'u', '\x7b'] ++ hexDigits c.toNat ++ ['\x7d']

/-- The text between double quotes, with every character escaped that needs it. -/
def quote (s : String) : String :=
  String.ofList ('"' :: s.toList.flatMap escape ++ ['"'])

end FiniteAutomata.Text
