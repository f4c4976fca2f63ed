import FiniteAutomata.Input

/-!
# Reading one line at a time

A cursor stands between two lines of an input. It can be asked for the next line as often as one
likes; at the end of the input there is none. It may pass over blank lines, which it still counts.

* `Cursor.start`, `Cursor.next` — the beginning of an input, and one line further.
* `Cursor.takeError` — why reading ended early, if it did.
-/

namespace FiniteAutomata

/-- A place in an input. -/
structure Cursor where
  /-- Whether blank lines are passed over. -/
  skipsBlank : Bool
  /-- The number of lines read so far, the blank ones included. -/
  number : Nat
  /-- What has not been read yet. -/
  rest : Input
  /-- Why reading ended early, if it did and nobody has asked since. -/
  error : Option ReadError
deriving DecidableEq

namespace Cursor

/-- The beginning of an input. -/
def start (skipsBlank : Bool) (input : Input) : Cursor := ⟨skipsBlank, 0, input, none⟩

/-- The next line among `lines`, the lines after it, and how many lines were read. -/
def advance (skipsBlank : Bool) : List String → Option (String × List String) × Nat
  | [] => (none, 0)
  | line :: rest =>
    if skipsBlank && Text.isBlankText line then
      let (answer, read) := advance skipsBlank rest
      (answer, read + 1)
    else (some (line, rest), 1)

/-- The next line and the place behind it. At the end of the input there is none, however often
it is asked for. -/
def next (c : Cursor) : Option String × Cursor :=
  match advance c.skipsBlank c.rest.lines with
  | (some (line, rest), read) =>
    (some line, { c with number := c.number + read, rest := { c.rest with lines := rest } })
  | (none, read) =>
    (none, { c with
      number := c.number + read
      rest := ⟨[], none⟩
      error := c.error.or c.rest.error })

/-- Why reading ended early, if it did; the answer is given once. -/
def takeError (c : Cursor) : Option ReadError × Cursor := (c.error, { c with error := none })

end Cursor

end FiniteAutomata
