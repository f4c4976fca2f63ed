import FiniteAutomata.LabelSupply

/-!
# Combining automata

The words of an automaton can be put in sequence, joined and repeated by copying automata side by
side and connecting the copies by edges on `epsilon`. All states of a copy get labels from a supply,
in the order of the labels that they had; the operands are only looked at, and the same automaton
can be copied any number of times.

* `Automaton.ofSymbol`, `Automaton.ofSymbols?` — the automata to begin with.
* `Automaton.copyInto` — a copy of one automaton inside another.
* `Automaton.concat`, `Automaton.union`, `Automaton.iterate` — the combinations.
-/

namespace FiniteAutomata

/-- The edge between the copies of the ends of an edge. -/
def Edge.rename (f : Label → Label) (e : Edge) : Edge := ⟨f e.source, e.symbol, f e.target⟩

namespace Automaton

/-! ## Automata to begin with -/

/-- The automaton of no word. -/
def ofNothing : Automaton :=
  (blank .nondeterministic).addState (LabelSupply.label 0) .onlyInitial

/-- The automaton of the empty word. -/
def ofEmptyWord : Automaton :=
  (blank .nondeterministic).addState (LabelSupply.label 0) .both

/-- The automaton of one symbol. -/
def ofSymbol (symbol : Symbol) : Automaton :=
  if symbol = epsilon then ofEmptyWord
  else
    (((blank .nondeterministic).addSymbol symbol).addStates
      [(LabelSupply.label 0, .onlyInitial), (LabelSupply.label 1, .onlyFinal)]).addEdge
      ⟨LabelSupply.label 0, symbol, LabelSupply.label 1⟩

/-- The automaton of a set of at most one symbol. -/
def ofSymbols? (symbols : SortedSet Symbol) : Option Automaton :=
  match symbols.toList with
  | [] => some ofNothing
  | [symbol] => some (ofSymbol symbol)
  | _ => none

/-! ## Copies -/

/-- The label of the copy of a state: the states get the next labels of the supply, in order. -/
def copyLabel (A : Automaton) (supply : LabelSupply) (q : Label) : Label :=
  LabelSupply.label (supply.handedOut + A.states.keys.toList.idxOf q)

/-- An automaton with a copy of another inside. -/
structure Copy where
  automaton : Automaton
  /-- The labels of the copies of the initial states, in the order of the states. -/
  initial : List Label
  /-- The labels of the copies of the final states, in the order of the states. -/
  final : List Label
  /-- The labels that are left. -/
  supply : LabelSupply

/-- Puts a copy of `A` into `result`, whose states lose the marks in `cleared`. -/
def copyInto (A result : Automaton) (cleared : Flags) (supply : LabelSupply) : Copy :=
  let copied := A.copyLabel supply
  let states := A.states.toList.map fun s => (copied s.1, s.2.without cleared)
  let edges := A.edges.toList.map (·.rename copied)
  { automaton := ((result.addStates states).addSymbols A.alphabet.toList).addEdges edges
    initial := A.initial.toList.map copied
    final := A.final.toList.map copied
    supply := ⟨supply.handedOut + A.states.size⟩ }

/-- Adds an edge on `epsilon` from each of the sources to each of the targets. -/
def connect (A : Automaton) (sources targets : List Label) : Automaton :=
  A.addEdges (sources.flatMap fun q => targets.map fun t => ⟨q, epsilon, t⟩)

/-! ## Combinations -/

/-- The automaton of the words of `A` followed by words of `B`. -/
def concat (A B : Automaton) (supply : LabelSupply) : Automaton × LabelSupply :=
  let left := A.copyInto (blank .nondeterministic) .onlyFinal supply
  let right := B.copyInto left.automaton .onlyInitial left.supply
  (right.automaton.connect left.final right.initial, right.supply)

/-- The automaton of the words of `A` and of `B`. -/
def union (A B : Automaton) (supply : LabelSupply) : Automaton × LabelSupply :=
  let left := A.copyInto (blank .nondeterministic) .onlyInitial supply
  let right := B.copyInto left.automaton .onlyInitial left.supply
  let (entry, supply) := right.supply.next
  ((right.automaton.addState entry .onlyInitial).connect [entry] (left.initial ++ right.initial),
    supply)

/-- The automaton of the words that consist of any number of words of `A`. A state that is initial
and final gets no edge to itself, which would not lead anywhere new. -/
def iterate (A : Automaton) (supply : LabelSupply) : Automaton × LabelSupply :=
  let inner := A.copyInto (blank .nondeterministic) .onlyInitial supply
  let again := inner.final.flatMap fun q =>
    (inner.initial.filter (· != q)).map fun t => (⟨q, epsilon, t⟩ : Edge)
  let (entry, supply) := inner.supply.next
  (((inner.automaton.addEdges again).addState entry .both).connect [entry] inner.initial, supply)

end Automaton

end FiniteAutomata
