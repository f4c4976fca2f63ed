import FiniteAutomata.Proofs.Automaton.Languages
import FiniteAutomata.Proofs.Automaton.Supply

/-!
# Copying state by state

A copy can be made in one pass: each state of the original gets the next label, a table remembers which,
and each edge is looked up in the table at both of its ends.  Such a pass has ways to lose something without
saying so.  A label that is taken already adds no state, an end that is not in the table makes it pass over
the edge, and an edge with an end or a symbol that is not there yet is refused.  None of this happens if the
supply is ahead of the labels in use, whatever the labels of the original are.

* `Copying`, `Automaton.copyInOrder` — the pass, with a list of the edges that it refuses.
* **`Copying.Stands.addState`**, **`Copying.Complete.addEdge`** — one more state, and one more edge.
* `copyInOrder_copyInto` — the pass makes the copy, and refuses no edge.
* `IsCopyInto` — a copy beside what was there before.
* **`isCopyInto_copyInOrder`** — what is made is such a copy.
-/

namespace FiniteAutomata

open Automaton

/-- A copy that is being made. -/
structure Copying where
  automaton : Automaton
  /-- The labels of the copies of the initial states so far. -/
  initial : List Label
  /-- The labels of the copies of the final states so far. -/
  final : List Label
  supply : LabelSupply
  /-- The label of the copy of each state so far. -/
  table : SortedMap Label Label
  /-- The edges of which no copy was made. -/
  refused : List Edge

namespace Copying

/-- Copies a state. -/
def addState (cleared : Flags) (c : Copying) (state : Label × Flags) : Copying :=
  let (fresh, supply) := c.supply.next
  { c with
    automaton := c.automaton.addState fresh (state.2.without cleared)
    initial := c.initial ++ if state.2.initial then [fresh] else []
    final := c.final ++ if state.2.final then [fresh] else []
    supply
    table := c.table.insert state.1 fresh }

/-- Copies an edge, if the copies of its ends can be looked up and the copy is an edge that the automaton
admits. -/
def addEdge (c : Copying) (e : Edge) : Copying :=
  match c.table.get? e.source, c.table.get? e.target with
  | some source, some target =>
    if c.automaton.knows ⟨source, e.symbol, target⟩ then
      { c with automaton := c.automaton.addEdge ⟨source, e.symbol, target⟩ }
    else { c with refused := c.refused ++ [e] }
  | _, _ => { c with refused := c.refused ++ [e] }

/-- The copies of the states are made, and the symbols and the edges are still to come. -/
def ofStates (A R : Automaton) (cleared : Flags) (supply : LabelSupply) : Copying :=
  A.states.toList.foldl (addState cleared) ⟨R, [], [], supply, ∅, []⟩

end Copying

/-- Puts a copy of `A` into `R`, one state and one edge after the other. -/
def Automaton.copyInOrder (A R : Automaton) (cleared : Flags) (supply : LabelSupply) : Copying :=
  let states := Copying.ofStates A R cleared supply
  let symbols := { states with automaton := states.automaton.addSymbols A.alphabet.toList }
  A.edges.toList.foldl Copying.addEdge symbols

variable {A R : Automaton} {cleared : Flags} {supply : LabelSupply} {c : Copying} {q : Label} {e : Edge}

/-! ## States -/

namespace Copying

/-- The copies of the states in `done` are made. -/
structure Stands (A R : Automaton) (cleared : Flags) (supply : LabelSupply) (done : List (Label × Flags))
    (c : Copying) : Prop where
  automaton : c.automaton =
    R.addStates (done.map fun p => (A.copyLabel supply p.1, p.2.without cleared))
  initial : c.initial = ((done.filter (·.2.initial)).map (·.1)).map (A.copyLabel supply)
  final : c.final = ((done.filter (·.2.final)).map (·.1)).map (A.copyLabel supply)
  handedOut : c.supply.handedOut = supply.handedOut + done.length
  table : ∀ q, c.table.get? q =
    if q ∈ done.map (·.1) then some (A.copyLabel supply q) else none
  refused : c.refused = []

/-- The state behind those that have been copied gets the next label. -/
lemma copyLabel_of_states {done rest : List (Label × Flags)} {state : Label × Flags}
    (h : A.states.toList = done ++ state :: rest) :
    A.copyLabel supply state.1 = LabelSupply.label (supply.handedOut + done.length) := by
  have hkeys : A.states.keys.toList = done.map (·.1) ++ state.1 :: rest.map (·.1) := by
    show A.states.toList.map (·.1) = _
    rw [h, List.map_append, List.map_cons]
  have hnew : state.1 ∉ done.map (·.1) := by
    have hnodup := nodup_keys (A := A)
    rw [hkeys, List.nodup_append] at hnodup
    exact fun hmem => hnodup.2.2 _ hmem _ (List.mem_cons_self ..) rfl
  rw [copyLabel, hkeys, List.idxOf_append_of_notMem hnew, List.idxOf_cons_self, List.length_map, Nat.add_zero]

/-- **A step copies the next state**, under the label that the supply has for it. -/
theorem Stands.addState {done rest : List (Label × Flags)} {state : Label × Flags}
    (h : Stands A R cleared supply done c) (hstates : A.states.toList = done ++ state :: rest) :
    Stands A R cleared supply (done ++ [state]) (c.addState cleared state) := by
  have hfresh : LabelSupply.label c.supply.handedOut = A.copyLabel supply state.1 := by
    rw [h.handedOut, copyLabel_of_states hstates]
  constructor
  · show c.automaton.addState (LabelSupply.label c.supply.handedOut) _ = _
    rw [hfresh, h.automaton, List.map_append, addStates, addStates, List.foldl_append]
    rfl
  · show c.initial ++ (if state.2.initial then [LabelSupply.label c.supply.handedOut] else []) = _
    rw [hfresh, h.initial, List.filter_append, List.map_append, List.map_append]
    cases hmark : state.2.initial <;> simp [hmark]
  · show c.final ++ (if state.2.final then [LabelSupply.label c.supply.handedOut] else []) = _
    rw [hfresh, h.final, List.filter_append, List.map_append, List.map_append]
    cases hmark : state.2.final <;> simp [hmark]
  · show c.supply.handedOut + 1 = _
    rw [h.handedOut, List.length_append, List.length_singleton, Nat.add_assoc]
  · intro q
    show (c.table.insert state.1 (LabelSupply.label c.supply.handedOut)).get? q = _
    rw [SortedMap.get?_insert, hfresh, h.table, List.map_append, List.map_singleton]
    by_cases hq : q = state.1
    · simp [hq]
    · simp only [hq, if_false, List.mem_append, List.mem_singleton, or_false]
  · exact h.refused

lemma Stands.foldl {done rest : List (Label × Flags)} (h : Stands A R cleared supply done c)
    (hstates : A.states.toList = done ++ rest) :
    Stands A R cleared supply A.states.toList (rest.foldl (Copying.addState cleared) c) := by
  induction rest generalizing done c with
  | nil => rwa [hstates, List.append_nil]
  | cons state rest ih =>
      exact ih (h.addState hstates) (by rw [hstates, List.append_assoc, List.singleton_append])

lemma stands_ofStates (A R : Automaton) (cleared : Flags) (supply : LabelSupply) :
    Stands A R cleared supply A.states.toList (ofStates A R cleared supply) := by
  have hstart : Stands A R cleared supply [] ⟨R, [], [], supply, ∅, []⟩ := by
    constructor <;> simp [addStates]
  exact hstart.foldl rfl

/-! ## Edges -/

/-- All states and symbols of the original have their copies. -/
structure Complete (A : Automaton) (supply : LabelSupply) (c : Copying) : Prop where
  table : ∀ q, A.hasState q = true → c.table.get? q = some (A.copyLabel supply q)
  states : ∀ q, A.hasState q = true → c.automaton.hasState (A.copyLabel supply q) = true
  alphabet : ∀ s ∈ A.alphabet, s ∈ c.automaton.alphabet

/-- **A step copies an edge**: both ends are looked up, and the copy is not refused. -/
theorem Complete.addEdge (h : Complete A supply c) (he : e ∈ A.edges) :
    c.addEdge e = { c with automaton := c.automaton.addEdge (e.rename (A.copyLabel supply)) } ∧
      Complete A supply (c.addEdge e) := by
  obtain ⟨⟨hsource, hsymbol⟩, htarget⟩ := A.known e he
  have hknown : c.automaton.knows (e.rename (A.copyLabel supply)) = true :=
    knows_iff.2 ⟨h.states _ hsource, h.alphabet _ (SortedSet.contains_iff_mem.1 hsymbol),
      h.states _ htarget⟩
  have hstep : c.addEdge e = { c with automaton := c.automaton.addEdge (e.rename (A.copyLabel supply)) } := by
    rw [Copying.addEdge, h.table _ hsource, h.table _ htarget]
    exact if_pos hknown
  refine ⟨hstep, ?_⟩
  rw [hstep]
  refine ⟨h.table, fun q hq => ?_, fun s hs => ?_⟩
  · show (c.automaton.addEdge _).states.contains _ = true
    rw [states_addEdge]
    exact h.states q hq
  · rw [alphabet_addEdge]
    exact h.alphabet s hs

lemma Complete.foldl {edges : List Edge} (h : Complete A supply c) (hedges : ∀ e ∈ edges, e ∈ A.edges) :
    edges.foldl Copying.addEdge c =
      { c with automaton := c.automaton.addEdges (edges.map (·.rename (A.copyLabel supply))) } := by
  induction edges generalizing c with
  | nil => rfl
  | cons e edges ih =>
      obtain ⟨hstep, hcomplete⟩ := h.addEdge (hedges e (List.mem_cons_self ..))
      rw [List.foldl_cons, ih hcomplete fun d hd => hedges d (List.mem_cons_of_mem e hd), hstep]
      rfl

/-- The copy without what was needed to make it. -/
def copy (c : Copying) : Copy := ⟨c.automaton, c.initial, c.final, c.supply⟩

end Copying

open Copying

lemma mem_map_fst_states : q ∈ A.states.toList.map (·.1) ↔ A.hasState q = true := mem_keys_toList

/-- When the states are copied and the symbols added, nothing is missing for the edges. -/
lemma complete_symbols (A R : Automaton) (cleared : Flags) (supply : LabelSupply) :
    Complete A supply { ofStates A R cleared supply with
      automaton := (ofStates A R cleared supply).automaton.addSymbols A.alphabet.toList } := by
  have hstands := stands_ofStates A R cleared supply
  refine ⟨fun q hq => ?_, fun q hq => ?_, fun s hs => ?_⟩
  · rw [hstands.table, if_pos (mem_map_fst_states.2 hq)]
  · show ((ofStates A R cleared supply).automaton.addSymbols _).states.contains _ = true
    rw [states_addSymbols, hstands.automaton]
    refine hasState_addStates.2 (.inr ?_)
    rw [List.map_map, List.mem_map]
    obtain ⟨f, hf⟩ := hasState_iff.1 hq
    exact ⟨(q, f), mem_states_toList.2 hf, rfl⟩
  · exact mem_addSymbols.2 (.inl hs)

/-- **The pass makes the copy, whatever the labels are**: every state is in the table, and no edge is
refused. -/
theorem copyInOrder_copyInto (A R : Automaton) (cleared : Flags) (supply : LabelSupply) :
    (A.copyInOrder R cleared supply).copy = A.copyInto R cleared supply ∧
      (A.copyInOrder R cleared supply).refused = [] ∧
        ∀ q, A.hasState q = true →
          (A.copyInOrder R cleared supply).table.get? q = some (A.copyLabel supply q) := by
  have hstands := stands_ofStates A R cleared supply
  have hcomplete := complete_symbols A R cleared supply
  have hedges := hcomplete.foldl fun e (he : e ∈ A.edges.toList) => he
  have hpass : A.copyInOrder R cleared supply = _ := hedges
  rw [hpass]
  refine ⟨?_, hstands.refused, hcomplete.table⟩
  rw [copy, copyInto, Copy.mk.injEq]
  refine ⟨?_, hstands.initial, hstands.final, ?_⟩
  · rw [hstands.automaton]
  · exact congrArg LabelSupply.mk hstands.handedOut

/-! ## What a copy is -/

/-- `c` is what was there before, and beside it a copy of `A` under the labels `r`. -/
structure IsCopyInto (A R : Automaton) (cleared : Flags) (supply : LabelSupply) (r : Label → Label)
    (c : Copy) : Prop where
  injective : ∀ p q, A.hasState p = true → A.hasState q = true → r p = r q → p = q
  fresh : ∀ q, A.hasState q = true → R.hasState (r q) = false
  /-- The states in the order of their labels get the labels that the supply hands out next. -/
  labels : A.states.keys.toList.map r = (supply.take A.states.size).1
  supply : c.supply = (supply.take A.states.size).2
  untouched : ∀ q, R.hasState q = true → c.automaton.states.get? q = R.states.get? q
  marks : ∀ q f, A.states.get? q = some f → c.automaton.states.get? (r q) = some (f.without cleared)
  states : ∀ x, c.automaton.hasState x = true ↔
    R.hasState x = true ∨ ∃ q, A.hasState q = true ∧ x = r q
  edges : ∀ e, e ∈ c.automaton.edges ↔ e ∈ R.edges ∨ ∃ d ∈ A.edges, e = d.rename r
  /-- No edge of the copy falls together with one that was there. -/
  separate : ∀ d ∈ A.edges, d.rename r ∉ R.edges
  /-- Between states of the copy are the copies of the edges. -/
  isomorphic : ∀ p s q, A.hasState p = true → A.hasState q = true →
    (⟨r p, s, r q⟩ ∈ c.automaton.edges ↔ ⟨p, s, q⟩ ∈ A.edges)
  alphabet : ∀ s, s ∈ c.automaton.alphabet ↔ s ∈ R.alphabet ∨ s ∈ A.alphabet
  initial : c.initial = A.initial.toList.map r
  final : c.final = A.final.toList.map r

/-- A supply that has handed out all labels in use is ahead of them. -/
lemma LabelSupply.freshFor_of_handedOut
    (h : ∀ q, R.hasState q = true → ∃ n < supply.handedOut, q = LabelSupply.label n) :
    supply.FreshFor R := by
  intro n hn
  refine Option.eq_none_iff_forall_ne_some.2 fun f hf => ?_
  obtain ⟨m, hm, hlabel⟩ := h _ (hasState_of_get? hf)
  have hnm := LabelSupply.label_injective hlabel
  omega

lemma hasState_copyLabel_eq_false (h : supply.FreshFor R) (hq : A.hasState q = true) :
    R.hasState (A.copyLabel supply q) = false := by
  obtain ⟨n, hn, -, hlabel⟩ := exists_copyLabel_eq supply hq
  rw [hasState, SortedMap.contains, hlabel, h n hn]
  rfl

/-- An edge with its ends among the states of the copy was not there before. -/
lemma not_mem_edges_copyLabel {p t : Label} {s : Symbol} (h : supply.FreshFor R) (hp : A.hasState p = true) :
    ⟨A.copyLabel supply p, s, t⟩ ∉ R.edges := by
  intro hmem
  have hknown := (knows_iff.1 (knows_of_mem hmem)).1
  rw [hasState_copyLabel_eq_false h hp] at hknown
  cases hknown

lemma isCopyInto_copyInto (h : supply.FreshFor R) :
    IsCopyInto A R cleared supply (A.copyLabel supply) (A.copyInto R cleared supply) where
  injective p q hp _ heq := copyLabel_injective hp heq
  fresh q hq := hasState_copyLabel_eq_false h hq
  labels := copies_eq_take
  supply := after_eq_take
  untouched q hq := by
    obtain ⟨f, hf⟩ := hasState_iff.1 hq
    rw [hf]
    exact (get?_copyInto h).2 (.inl hf)
  marks q f hf := (get?_copyInto h).2 (.inr ⟨q, f, hf, rfl, rfl⟩)
  states x := hasState_copyInto h
  edges e := by
    rw [mem_edges_copyInto h, or_comm]
  separate d hd := by
    obtain ⟨⟨hsource, -⟩, -⟩ := A.known d hd
    exact not_mem_edges_copyLabel h hsource
  isomorphic p s q hp hq := by
    rw [mem_edges_copyInto h, or_iff_left (not_mem_edges_copyLabel h hp)]
    constructor
    · rintro ⟨d, hd, heq⟩
      obtain ⟨t, hedge, htarget⟩ := exists_edge_of_rename hp hd heq
      rwa [copyLabel_injective hq htarget]
    · exact fun hedge => ⟨⟨p, s, q⟩, hedge, rfl⟩
  alphabet s := by
    rw [mem_alphabet_copyInto, or_comm]
  initial := rfl
  final := rfl

/-- **If the labels in use have all been handed out, the pass puts a copy beside what was there**, refuses no
edge and has every state in its table. -/
theorem isCopyInto_copyInOrder (A R : Automaton) (cleared : Flags) (supply : LabelSupply)
    (h : ∀ q, R.hasState q = true → ∃ n < supply.handedOut, q = LabelSupply.label n) :
    ∃ r, IsCopyInto A R cleared supply r (A.copyInto R cleared supply) ∧
      (A.copyInOrder R cleared supply).copy = A.copyInto R cleared supply ∧
      (A.copyInOrder R cleared supply).refused = [] ∧
      ∀ q, A.hasState q = true → (A.copyInOrder R cleared supply).table.get? q = some (r q) :=
  ⟨A.copyLabel supply, isCopyInto_copyInto (LabelSupply.freshFor_of_handedOut h),
    copyInOrder_copyInto A R cleared supply⟩

/-- An automaton with a label that is in use elsewhere and one that is about to be handed out. -/
def loopOfTwo : Automaton :=
  (((blank .nondeterministic).addSymbol "b").addStates
    [(LabelSupply.label 1, .both), (LabelSupply.label 2, .onlyInitial)]).addEdges
    [⟨LabelSupply.label 1, "b", LabelSupply.label 2⟩, ⟨LabelSupply.label 2, "b", LabelSupply.label 1⟩]

/-- The copies get labels behind both, in the order of the labels that they had. -/
theorem isCopyInto_copyInOrder_loopOfTwo :
    ∃ r, IsCopyInto loopOfTwo (ofSymbol "a") .onlyInitial ⟨2⟩ r
        (loopOfTwo.copyInto (ofSymbol "a") .onlyInitial ⟨2⟩) ∧
      loopOfTwo.states.keys.toList.map r = [LabelSupply.label 2, LabelSupply.label 3] := by
  have hlabels : ∀ q, (ofSymbol "a").hasState q = true → ∃ n < 2, q = LabelSupply.label n := by
    intro q hq
    obtain ⟨f, hf⟩ := hasState_iff.1 hq
    rcases (get?_ofSymbol (by decide)).1 hf with ⟨rfl, -⟩ | ⟨rfl, -⟩
    · exact ⟨0, by decide, rfl⟩
    · exact ⟨1, by decide, rfl⟩
  obtain ⟨r, hcopy, -⟩ := isCopyInto_copyInOrder loopOfTwo (ofSymbol "a") .onlyInitial ⟨2⟩ hlabels
  exact ⟨r, hcopy, hcopy.labels⟩

end FiniteAutomata
