/-!
# Cutting texts into lines

A line ends with a line feed, and one carriage return before the line feed belongs to the line's
end; what follows the last line feed is a line only if it is not empty. Characters and bytes are
cut alike, since in UTF-8 the byte of a line feed is never a part of another character.

* `Text.cutLines` — the lines of a sequence.
-/

namespace FiniteAutomata.Text

/-- The sequence without one `a` at its end, if it ends in one. -/
def dropTrailing {α : Type} [BEq α] (a : α) (l : List α) : List α :=
  if l.getLast? == some a then l.dropLast else l

/-- Cuts a sequence into lines: every `feed` ends a line and takes one `ret` before it along; the
rest after the last `feed` is a line unless it is empty. -/
def cutLines {α : Type} [BEq α] (feed ret : α) (l : List α) : List (List α) :=
  let pieces := l.splitOn feed
  let rest := pieces.getLast?.getD []
  pieces.dropLast.map (dropTrailing ret) ++ if rest.isEmpty then [] else [rest]

end FiniteAutomata.Text
