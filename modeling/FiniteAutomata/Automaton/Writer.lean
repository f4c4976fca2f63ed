import FiniteAutomata.Automaton.Basic

/-!
# Automata as text

The text of an automaton has a line with the number of states and one with the number of symbols,
then a line for each state, which is its label and its marks, a line for each symbol, and a line
`source,symbol,target` for each edge, all in ascending order. The symbol `epsilon` has no line: it
is part of the alphabet of every nondeterministic automaton.

* `Automaton.write` — the text of an automaton.
-/

namespace FiniteAutomata.Automaton

/-- The lines of the text of an automaton. -/
def writtenLines (A : Automaton) : List String :=
  [toString A.states.size, toString A.letters.size] ++
    (A.states.toList.map fun s => s.1 ++ s.2.mark) ++
    A.letters.toList ++
    (A.edges.toList.map fun e => e.source ++ "," ++ e.symbol ++ "," ++ e.target)

/-- The text of an automaton. -/
def write (A : Automaton) : String := String.join (A.writtenLines.map (· ++ "\n"))

end FiniteAutomata.Automaton
