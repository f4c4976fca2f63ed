import FiniteAutomata.SortedMap
import FiniteAutomata.Automaton.Flags

/-!
# Finite automata

An automaton has an alphabet, labelled states with marks, and edges between states. Every edge
runs between states of the automaton and carries a symbol of its alphabet; the type says so, hence
no operation has to look out for dangling edges. The empty symbol `epsilon` is read without
consuming anything, and whether an automaton is deterministic is a property of its edges alone.

* `Automaton.apply` — makes one `Change`, if the automaton admits it.
* `Automaton.build` — the automaton that a list of changes leads to.
* `Automaton.mem_addEdge`, `Automaton.get?_addState`, `Automaton.mem_addSymbol` — what the changes
  do.
-/

namespace FiniteAutomata

open Std

/-- The name of a state. -/
abbrev Label := String

/-- A member of an alphabet, of any length. -/
abbrev Symbol := String

/-- The symbol that is read without consuming anything. -/
def epsilon : Symbol := ""

/-- A set of states, given by their labels. -/
abbrev StateSet := SortedSet Label

/-! ## Edges -/

/-- An edge from a state to a state. -/
structure Edge where
  source : Label
  symbol : Symbol
  target : Label
deriving DecidableEq

namespace Edge

/-- Edges are ordered by source, then by symbol, then by target. -/
def order : Edge → Edge → Ordering :=
  compareLex (compareOn source) (compareLex (compareOn symbol) (compareOn target))

instance : Ord Edge := ⟨order⟩

instance : TransOrd Edge :=
  inferInstanceAs <| TransCmp
    (compareLex (compareOn source) (compareLex (compareOn symbol) (compareOn target)))

instance : LawfulEqOrd Edge where
  eq_of_compare {a b} h := by
    change compareLex _ _ a b = .eq at h
    simp only [compareLex, Ordering.then_eq_eq, compareOn] at h
    obtain ⟨a₁, a₂, a₃⟩ := a
    obtain ⟨b₁, b₂, b₃⟩ := b
    obtain rfl : a₁ = b₁ := LawfulEqOrd.eq_of_compare h.1
    obtain rfl : a₂ = b₂ := LawfulEqOrd.eq_of_compare h.2.1
    obtain rfl : a₃ = b₃ := LawfulEqOrd.eq_of_compare h.2.2
    rfl

end Edge

/-! ## Automata -/

/-- Whether an automaton is meant to be deterministic. It decides only about `epsilon`. -/
inductive Kind
  /-- The alphabet holds `epsilon` from the beginning. -/
  | nondeterministic
  /-- The alphabet is empty at the beginning. -/
  | deterministic
deriving DecidableEq

/-- A finite automaton. -/
structure Automaton where
  /-- The symbols that edges may carry. -/
  alphabet : SortedSet Symbol
  /-- The marks of each state. -/
  states : SortedMap Label Flags
  /-- The edges. -/
  edges : SortedSet Edge
  known : ∀ e ∈ edges,
    (states.contains e.source = true ∧ alphabet.contains e.symbol = true) ∧
      states.contains e.target = true

/-- One way to enlarge an automaton. -/
inductive Change
  /-- A state with its marks, and whether they replace the marks of a state with that label. -/
  | state (label : Label) (flags : Flags) (overwrite : Bool)
  /-- A symbol of the alphabet. -/
  | symbol (symbol : Symbol)
  /-- An edge. -/
  | edge (edge : Edge)
deriving DecidableEq

namespace Automaton

instance : DecidableEq Automaton := fun A B =>
  decidable_of_iff (A.alphabet = B.alphabet ∧ A.states = B.states ∧ A.edges = B.edges)
    (by cases A; cases B; simp)

/-- The automaton without states. -/
def blank : Kind → Automaton
  | .nondeterministic => ⟨SortedSet.ofList [epsilon], ∅, ∅, fun _ h => absurd h (by simp)⟩
  | .deterministic => ⟨∅, ∅, ∅, fun _ h => absurd h (by simp)⟩

/-- Whether there is a state of this label. -/
def hasState (A : Automaton) (label : Label) : Bool := A.states.contains label

/-- Whether the ends of an edge are states and its symbol is in the alphabet. -/
def knows (A : Automaton) (e : Edge) : Bool :=
  A.hasState e.source && A.alphabet.contains e.symbol && A.hasState e.target

theorem knows_of_mem {A : Automaton} {e : Edge} (h : e ∈ A.edges) : A.knows e = true := by
  simpa [knows, hasState] using A.known e h

/-! ## Changes -/

/-- Adds a state, which gets `flags` whether or not there was a state of that label. -/
def setState (A : Automaton) (label : Label) (flags : Flags) : Automaton where
  alphabet := A.alphabet
  states := A.states.insert label flags
  edges := A.edges
  known e he := by
    have h := A.known e he
    simp only [SortedMap.contains, SortedMap.get?_insert] at h ⊢
    refine ⟨⟨?_, h.1.2⟩, ?_⟩ <;> split <;> simp_all

/-- Adds a state; a state of that label keeps its marks. -/
def addState (A : Automaton) (label : Label) (flags : Flags) : Automaton :=
  if A.hasState label then A else A.setState label flags

/-- Adds a symbol to the alphabet. -/
def addSymbol (A : Automaton) (symbol : Symbol) : Automaton where
  alphabet := A.alphabet.insert symbol
  states := A.states
  edges := A.edges
  known e he := by
    have h := A.known e he
    simp only [SortedSet.contains_iff_mem, SortedSet.mem_insert] at h ⊢
    exact ⟨⟨h.1.1, .inr h.1.2⟩, h.2⟩

/-- Adds an edge, unless one of its ends or its symbol is unknown. -/
def addEdge (A : Automaton) (e : Edge) : Automaton :=
  if he : A.knows e = true then
    { alphabet := A.alphabet
      states := A.states
      edges := A.edges.insert e
      known := fun x hx => by
        rcases SortedSet.mem_insert.1 hx with rfl | hx
        · simpa [knows, hasState] using he
        · exact A.known x hx }
  else A

/-- Whether a change can be made. -/
def admits (A : Automaton) : Change → Bool
  | .state label _ overwrite => overwrite || !A.hasState label
  | .symbol _ => true
  | .edge e => A.knows e

/-- Makes a change; one that cannot be made leaves the automaton as it is. -/
def apply (A : Automaton) : Change → Automaton
  | .state label flags overwrite =>
    if overwrite then A.setState label flags else A.addState label flags
  | .symbol symbol => A.addSymbol symbol
  | .edge e => A.addEdge e

/-- The automaton after all changes, made one after the other. -/
def applyAll (A : Automaton) (changes : List Change) : Automaton := changes.foldl apply A

/-- The automaton that the changes lead to from the beginning. -/
def build (kind : Kind) (changes : List Change) : Automaton := (blank kind).applyAll changes

/-- Adds states in order; the first of several with one label counts. -/
def addStates (A : Automaton) (states : List (Label × Flags)) : Automaton :=
  states.foldl (fun A s => A.addState s.1 s.2) A

/-- Adds symbols. -/
def addSymbols (A : Automaton) (symbols : List Symbol) : Automaton := symbols.foldl addSymbol A

/-- Adds the edges that the automaton knows the ends and the symbol of. -/
def addEdges (A : Automaton) (edges : List Edge) : Automaton := edges.foldl addEdge A

/-! ### What the changes do -/

section Changes

variable {A : Automaton} {label x : Label} {flags : Flags} {symbol s : Symbol} {e f : Edge}

@[simp] theorem alphabet_addState : (A.addState label flags).alphabet = A.alphabet := by
  rw [addState]; split <;> rfl

@[simp] theorem edges_addState : (A.addState label flags).edges = A.edges := by
  rw [addState]; split <;> rfl

@[simp] theorem states_addSymbol : (A.addSymbol symbol).states = A.states := rfl

@[simp] theorem edges_addSymbol : (A.addSymbol symbol).edges = A.edges := rfl

@[simp] theorem alphabet_addEdge : (A.addEdge e).alphabet = A.alphabet := by
  rw [addEdge]; split <;> rfl

@[simp] theorem states_addEdge : (A.addEdge e).states = A.states := by
  rw [addEdge]; split <;> rfl

theorem mem_addSymbol : s ∈ (A.addSymbol symbol).alphabet ↔ s = symbol ∨ s ∈ A.alphabet :=
  SortedSet.mem_insert

theorem get?_setState :
    (A.setState label flags).states.get? x = if x = label then some flags else A.states.get? x :=
  SortedMap.get?_insert

theorem get?_addState :
    (A.addState label flags).states.get? x =
      if x = label then some ((A.states.get? label).getD flags) else A.states.get? x := by
  have h := SortedMap.get?_insertIfNew (m := A.states) (k := label) (x := x) (v := flags)
  rw [← h, addState, SortedMap.insertIfNew, hasState]
  split <;> rfl

theorem mem_addEdge : f ∈ (A.addEdge e).edges ↔ f = e ∧ A.knows e = true ∨ f ∈ A.edges := by
  rw [addEdge]
  split
  · next h => simp [h, SortedSet.mem_insert]
  · next h => simp [h]

end Changes

/-! ## Questions about states and edges -/

/-- The marks of a state. -/
def flags? (A : Automaton) (label : Label) : Option Flags := A.states.get? label

/-- Whether there is a final state of this label. -/
def isFinal (A : Automaton) (label : Label) : Bool := (A.flags? label).any (·.final)

/-- The initial states. -/
def initial (A : Automaton) : StateSet := A.states.keysWhere (·.initial)

/-- The final states. -/
def final (A : Automaton) : StateSet := A.states.keysWhere (·.final)

/-- The symbols other than `epsilon`. -/
def letters (A : Automaton) : SortedSet Symbol := A.alphabet.filter (· != epsilon)

/-- The states reached from `label` along one edge that carries `symbol`. -/
def targets (A : Automaton) (label : Label) (symbol : Symbol) : StateSet :=
  SortedSet.ofList <| (A.edges.toList.filter fun e =>
    e.symbol == symbol && e.source == label).map (·.target)

theorem mem_targets {A : Automaton} {q t : Label} {s : Symbol} :
    t ∈ A.targets q s ↔ ⟨q, s, t⟩ ∈ A.edges := by
  simp only [targets, SortedSet.mem_ofList, List.mem_map, List.mem_filter, SortedSet.mem_toList,
    Bool.and_eq_true, beq_iff_eq]
  constructor
  · rintro ⟨⟨_, _, _⟩, ⟨he, rfl, rfl⟩, rfl⟩
    exact he
  · exact fun h => ⟨_, ⟨h, rfl, rfl⟩, rfl⟩

/-- The states that an edge leaves. -/
def sources (A : Automaton) : StateSet := SortedSet.ofList (A.edges.toList.map (·.source))

/-- The symbols on the edges that leave a state, each with the states it leads to. -/
def outgoing (A : Automaton) (label : Label) : List (Symbol × StateSet) :=
  let symbols := SortedSet.ofList ((A.edges.toList.filter (·.source == label)).map (·.symbol))
  symbols.toList.map fun s => (s, A.targets label s)

/-- Whether no edge carries `epsilon` and no two edges leave one state with one symbol. How many
states are initial does not matter here. -/
def isDeterministic (A : Automaton) : Bool :=
  A.edges.toList.all fun e => e.symbol != epsilon && (A.targets e.source e.symbol).size ≤ 1

/-! ## Descriptions -/

/-- The size of an automaton in words. -/
def summary (A : Automaton) : String :=
  "Number of states: " ++ toString A.states.size ++
    "\nNumber of symbols: " ++ toString A.letters.size ++
    "\nNumber of transitions: " ++ toString A.edges.size

/-- An edge as it is listed for a reader. -/
def arrow (source symbol target : String) : String :=
  source ++ " --[" ++ symbol ++ "]-> " ++ target

/-- The size of an automaton, its states and its edges, each on a line. -/
def listing (A : Automaton) : String :=
  A.summary ++ "\n" ++
    String.join (A.states.toList.map fun s => s.1 ++ ": " ++ s.2.render ++ "\n") ++
    String.join (A.edges.toList.map fun e =>
      arrow e.source (if e.symbol = epsilon then "ε" else e.symbol) e.target ++ "\n")

end Automaton

end FiniteAutomata
