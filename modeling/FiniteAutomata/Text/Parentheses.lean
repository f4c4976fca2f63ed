/-!
# Outer parentheses

A text that stands in one pair of parentheses means the same without them. The first parenthesis
must be closed by the last, hence what is between them has to be balanced.

* `Text.isBalanced` — whether every parenthesis has its partner.
* `Text.stripParentheses` — the text without the outer pair.
-/

namespace FiniteAutomata.Text

/-- Whether the text closes each parenthesis that it opens, and `depth` more that are open already,
and no others. -/
def closesAll (depth : Nat) : List Char → Bool
  | [] => depth == 0
  | c :: cs =>
    if c = '(' then closesAll (depth + 1) cs
    else if c = ')' then
      match depth with
      | 0 => false
      | depth + 1 => closesAll depth cs
    else closesAll depth cs

/-- Whether every parenthesis has its partner. -/
def isBalanced (cs : List Char) : Bool := closesAll 0 cs

/-- What is between the first and the last character, if these are parentheses that belong to each
other. -/
def insideParentheses? : List Char → Option (List Char)
  | '(' :: rest =>
    if rest.getLast? = some ')' ∧ isBalanced rest.dropLast = true then some rest.dropLast else none
  | _ => none

/-- The text without one outer pair of parentheses, if it has one. -/
def stripParentheses (s : String) : String :=
  match insideParentheses? s.toList with
  | some inner => String.ofList inner
  | none => s

end FiniteAutomata.Text
