import FiniteAutomata.Automaton.Run
import FiniteAutomata.Text.Quoted

/-!
# The deterministic automaton of sets

Every automaton has a deterministic one for the same words, whose states stand for the sets of
states that the simulation passes through. The sets are explored breadth first, each once; the
empty set has no state, a missing edge takes its place. Then the sets get their labels in the order
of their discovery: the labels of the members one behind the other, and primes behind that where
another set has the label already.

* `Automaton.exploration` — the sets, each with the sets it leads to.
* `Automaton.names` — the labels of the sets.
* `Automaton.determinize` — the deterministic automaton.
* `Automaton.labelClashes` — the sets whose labels needed primes.
-/

namespace FiniteAutomata

/-- A set of states of which the joined label belonged to another set already. -/
structure LabelClash where
  /-- The joined label. -/
  label : Label
  states : StateSet

namespace LabelClash

/-- The warning about the set. -/
def message (clash : LabelClash) : String :=
  "Label " ++ Text.quote clash.label ++ " of " ++ clash.states.render Text.quote ++
    " is already used by another set of states"

end LabelClash

namespace Automaton

/-! ## Exploring the sets -/

/-- The symbols on which the simulation can go on from `S`, each with the set it comes to. -/
def successors (A : Automaton) (S : StateSet) : List (Symbol × StateSet) :=
  (A.letters.toList.map fun s => (s, A.advance S s)).filter fun move => !move.2.isEmpty

/-- The progress of an exploration. -/
structure Exploration where
  /-- The sets that have been looked at, in order, with their successors. -/
  expanded : List (StateSet × List (Symbol × StateSet))
  /-- The sets that have been found and not looked at yet, in order. -/
  waiting : List StateSet

/-- The sets that have been looked at. -/
def Exploration.sets (x : Exploration) : List StateSet := x.expanded.map (·.1)

/-- The sets among `found` that are not among `known`, each once. -/
def unseen (known : List StateSet) : (found : List StateSet) → List StateSet
  | [] => []
  | S :: found => if S ∈ known then unseen known found else S :: unseen (S :: known) found

/-- Looks at the first set that waits, and makes the sets wait that it leads to for the first
time. -/
def Exploration.next (A : Automaton) (x : Exploration) : Exploration :=
  match x.waiting with
  | [] => x
  | S :: waiting =>
    let moves := A.successors S
    { expanded := x.expanded ++ [(S, moves)]
      waiting := waiting ++
        unseen (x.sets ++ S :: waiting) (moves.map (·.2)) }

/-- Looks at sets until none waits, at most so many. -/
def exploreWithin (A : Automaton) : Nat → Exploration → Exploration
  | 0, x => x
  | steps + 1, x => if x.waiting.isEmpty then x else A.exploreWithin steps (x.next A)

/-- The exploration from the initial states. Only sets of states are found, hence the number of
all sets of states bounds the number of steps. -/
def exploration (A : Automaton) : Exploration :=
  A.exploreWithin (Nat.pow 2 A.states.size) ⟨[], [A.start]⟩

/-! ## Naming the sets -/

/-- The labels of the states, in order, without anything between them. -/
def joinLabels (S : StateSet) : Label := String.join S.toList

/-- The label with as many primes behind it as are needed to tell it from the labels in use, at
most so many. -/
def primed (used : List Label) : Nat → Label → Label
  | 0, label => label
  | primes + 1, label => if label ∈ used then primed used primes (label ++ "'") else label

/-- A label that is not in use. Of more labels than are in use, one is free. -/
def unusedLabel (used : List Label) (label : Label) : Label := primed used used.length label

/-- The sets with their labels. -/
def nameSets (sets : List StateSet) : List (StateSet × Label) :=
  sets.foldl (fun named S =>
    named ++ [(S, unusedLabel (named.map (·.2)) (joinLabels S))]) []

/-- The sets that the exploration finds, with their labels, in the order of discovery. -/
def names (A : Automaton) : List (StateSet × Label) := nameSets A.exploration.sets

/-- The label of a set in a list of names. -/
def nameIn (names : List (StateSet × Label)) (S : StateSet) : Label := (names.lookup S).getD ""

/-! ## The automaton -/

/-- The deterministic automaton for the same words. -/
def determinize (A : Automaton) : Automaton :=
  let x := A.exploration
  let names := nameSets x.sets
  let states := names.map fun (S, label) => (label, ⟨S == A.start, A.hasFinal S⟩)
  let edges := x.expanded.flatMap fun (S, moves) =>
    moves.map fun (s, T) => ⟨nameIn names S, s, nameIn names T⟩
  (((blank .deterministic).addSymbols A.letters.toList).addStates states).addEdges edges

/-- The sets whose labels needed primes, in the order of discovery. -/
def labelClashes (A : Automaton) : List LabelClash :=
  (A.names.filter fun (S, label) => label != joinLabels S).map fun (S, _) => ⟨joinLabels S, S⟩

end Automaton

end FiniteAutomata
