import FiniteAutomata.Automaton.Basic

/-!
# Comparing automata by their shape

A quick comparison looks at the alphabets, at numbers of states, and at how many edges leave the
states on which symbols. Labels and marks play no part in it, and neither does what the edges lead
to, so automata with different words can resemble each other.

* `Automaton.degrees` — the numbers of edges by state and symbol.
* `Automaton.profile` — these numbers written as one text.
* `Automaton.resembles` — the comparison.
-/

namespace FiniteAutomata.Automaton

/-- For every state and every symbol on which edges leave it, the symbol and their number. -/
def degrees (A : Automaton) : List (Symbol × Nat) :=
  A.sources.toList.flatMap fun q => (A.outgoing q).map fun move => (move.1, move.2.size)

/-- The degrees, each written as the symbol and the number behind it, sorted and joined. -/
def profile (A : Automaton) : String :=
  String.join <|
    (A.degrees.map fun degree => degree.1 ++ toString degree.2).mergeSort fun a b => a ≤ b

/-- Whether alphabets, numbers of states, numbers of states with edges and profiles agree. -/
def resembles (A B : Automaton) : Bool :=
  A.alphabet == B.alphabet && A.states.size == B.states.size &&
    A.sources.size == B.sources.size && A.profile == B.profile

end FiniteAutomata.Automaton
