import FiniteAutomata.Automaton.Basic

/-!
# A supply of labels

New states are labelled `q0`, `q1`, ... in the order in which they are made. The number of labels
handed out is carried from one construction to the next, so that no label is handed out twice.

* `LabelSupply.next` — hands out a label.
-/

namespace FiniteAutomata

/-- The labels that can still be handed out. -/
structure LabelSupply where
  /-- The number of labels handed out so far. -/
  handedOut : Nat
deriving DecidableEq

namespace LabelSupply

/-- The label with the number `n`. -/
def label (n : Nat) : Label := "q" ++ toString n

/-- A supply from which nothing has been handed out. -/
def full : LabelSupply := ⟨0⟩

/-- Hands out a label. -/
def next (supply : LabelSupply) : Label × LabelSupply :=
  (label supply.handedOut, ⟨supply.handedOut + 1⟩)

/-- Hands out so many labels. -/
def take (supply : LabelSupply) : Nat → List Label × LabelSupply
  | 0 => ([], supply)
  | n + 1 =>
    let (first, supply) := supply.next
    let (others, supply) := supply.take n
    (first :: others, supply)

end LabelSupply

end FiniteAutomata
