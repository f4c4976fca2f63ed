import FiniteAutomata.Proofs.Basic
import FiniteAutomata.Proofs.Extensionality

/-!
# What many changes do

An automaton is built by adding states, then symbols, then edges.  The lemmas below say what is in
the automaton afterwards, so that no later proof has to follow the changes one by one.

* `get?_addStates`, `mem_addSymbols`, `mem_addEdges` — the states, the alphabet and the edges
  after adding several.
* `assemble` — what has been put together from three lists and nothing else.
-/

namespace FiniteAutomata

/-- No member is listed twice. -/
lemma SortedSet.nodup_toList {α : Type} [Ord α] [Std.ReflOrd α] (s : SortedSet α) :
    s.toList.Nodup := by
  refine s.sorted.imp fun {q r} hlt => ?_
  rintro rfl
  simp [Std.ReflCmp.compare_self] at hlt

namespace Automaton

variable {A : Automaton} {q : Label} {f : Flags} {s : Symbol} {e : Edge}

lemma hasState_iff : A.hasState q = true ↔ ∃ f, A.states.get? q = some f :=
  SortedMap.contains_eq_true_iff

lemma hasState_of_get? (h : A.states.get? q = some f) : A.hasState q = true :=
  hasState_iff.2 ⟨f, h⟩

lemma knows_iff :
    A.knows e = true ↔
      A.hasState e.source = true ∧ e.symbol ∈ A.alphabet ∧ A.hasState e.target = true := by
  simp [knows, and_assoc]

lemma mem_keys_toList : q ∈ A.states.keys.toList ↔ A.hasState q = true :=
  SortedMap.mem_keys

lemma mem_letters : s ∈ A.letters ↔ s ∈ A.alphabet ∧ s ≠ epsilon := by
  simp [letters]

lemma mem_states_toList : (q, f) ∈ A.states.toList ↔ A.states.get? q = some f :=
  SortedMap.mem_toList_iff

lemma nodup_keys : A.states.keys.toList.Nodup := A.states.keys.nodup_toList

/-- New labels are all different if they tell the states apart. -/
lemma nodup_map_fst_states {r : Label → Label} {g : Flags → Flags}
    (hinj : ∀ q, A.hasState q = true → ∀ t, A.hasState t = true → r q = r t → q = t) :
    ((A.states.toList.map fun p => (r p.1, g p.2)).map (·.1)).Nodup := by
  have hlabels : (A.states.toList.map fun p => (r p.1, g p.2)).map (·.1) =
      A.states.keys.toList.map r := by
    rw [SortedMap.keys, List.map_map, List.map_map]
    rfl
  rw [hlabels]
  exact nodup_keys.map_on fun q hq t ht h =>
    hinj q (mem_keys_toList.1 hq) t (mem_keys_toList.1 ht) h

lemma lookup_states : A.states.toList.lookup q = A.states.get? q := by
  have hkeys : (A.states.toList.map (·.1)).Nodup := nodup_keys
  ext f
  rw [lookup_eq_some_iff_mem hkeys, mem_states_toList]

/-! ## States -/

section States

variable {states : List (Label × Flags)}

lemma addStates_cons {p : Label × Flags} :
    A.addStates (p :: states) = (A.addState p.1 p.2).addStates states := rfl

@[simp] lemma alphabet_addStates : (A.addStates states).alphabet = A.alphabet := by
  induction states generalizing A with
  | nil => rfl
  | cons p states ih => rw [addStates_cons, ih, alphabet_addState]

@[simp] lemma edges_addStates : (A.addStates states).edges = A.edges := by
  induction states generalizing A with
  | nil => rfl
  | cons p states ih => rw [addStates_cons, ih, edges_addState]

/-- A state that is there keeps its marks, any other gets those that it is listed with first. -/
lemma get?_addStates :
    (A.addStates states).states.get? q = (A.states.get? q).or (states.lookup q) := by
  induction states generalizing A with
  | nil => simp [addStates]
  | cons p states ih =>
      rw [addStates_cons, ih, get?_addState, List.lookup_cons]
      by_cases hq : q = p.1
      · rw [if_pos hq, ← hq, beq_self_eq_true]
        cases A.states.get? q <;> simp
      · rw [if_neg hq, beq_false_of_ne hq]

lemma hasState_addStates :
    (A.addStates states).hasState q = true ↔ A.hasState q = true ∨ q ∈ states.map (·.1) := by
  simp only [hasState, SortedMap.contains, get?_addStates, Option.isSome_or, Bool.or_eq_true,
    List.lookup_isSome_iff, List.mem_map, beq_iff_eq, eq_comm (a := q)]

lemma get?_addState_of_ne {label : Label} (h : q ≠ label) :
    (A.addState label f).states.get? q = A.states.get? q := by
  rw [get?_addState, if_neg h]

/-- A label that no state has can be given to a new state. -/
lemma get?_addState_self (h : A.states.get? q = none) :
    (A.addState q f).states.get? q = some f := by
  rw [get?_addState, if_pos rfl, h, Option.getD_none]

end States

/-! ## Symbols -/

section Symbols

variable {symbols : List Symbol}

@[simp] lemma states_addSymbols : (A.addSymbols symbols).states = A.states := by
  induction symbols generalizing A with
  | nil => rfl
  | cons s symbols ih => exact ih.trans states_addSymbol

@[simp] lemma edges_addSymbols : (A.addSymbols symbols).edges = A.edges := by
  induction symbols generalizing A with
  | nil => rfl
  | cons s symbols ih => exact ih.trans edges_addSymbol

lemma mem_addSymbols : s ∈ (A.addSymbols symbols).alphabet ↔ s ∈ symbols ∨ s ∈ A.alphabet := by
  induction symbols generalizing A with
  | nil => simp [addSymbols]
  | cons c symbols ih =>
      change s ∈ ((A.addSymbol c).addSymbols symbols).alphabet ↔ _
      rw [ih, mem_addSymbol, List.mem_cons]
      tauto

end Symbols

/-! ## Edges -/

section Edges

variable {edges : List Edge} {d : Edge}

@[simp] lemma knows_addEdge : (A.addEdge e).knows d = A.knows d := by
  simp [knows, hasState]

@[simp] lemma states_addEdges : (A.addEdges edges).states = A.states := by
  induction edges generalizing A with
  | nil => rfl
  | cons e edges ih => exact ih.trans states_addEdge

@[simp] lemma alphabet_addEdges : (A.addEdges edges).alphabet = A.alphabet := by
  induction edges generalizing A with
  | nil => rfl
  | cons e edges ih => exact ih.trans alphabet_addEdge

lemma knows_addEdges : (A.addEdges edges).knows d = A.knows d := by
  simp [knows, hasState]

/-- Adding edges does not change which edges are known, so all that are known beforehand, and only
those, are in the result. -/
lemma mem_addEdges :
    d ∈ (A.addEdges edges).edges ↔ d ∈ edges ∧ A.knows d = true ∨ d ∈ A.edges := by
  induction edges generalizing A with
  | nil => simp [addEdges]
  | cons e edges ih =>
      change d ∈ ((A.addEdge e).addEdges edges).edges ↔ _
      rw [ih, knows_addEdge, mem_addEdge, List.mem_cons]
      constructor
      · rintro (⟨hd, hk⟩ | ⟨rfl, hk⟩ | hd)
        · exact .inl ⟨.inr hd, hk⟩
        · exact .inl ⟨.inl rfl, hk⟩
        · exact .inr hd
      · rintro (⟨rfl | hd, hk⟩ | hd)
        · exact .inr (.inl ⟨rfl, hk⟩)
        · exact .inl ⟨hd, hk⟩
        · exact .inr (.inr hd)

end Edges

/-! ## Automata put together from lists -/

section Assemble

variable {kind : Kind} {states : List (Label × Flags)} {symbols : List Symbol} {edges : List Edge}

/-- The automaton with the states, the symbols and the edges of three lists, added in this order. -/
def assemble (kind : Kind) (states : List (Label × Flags)) (symbols : List Symbol)
    (edges : List Edge) : Automaton :=
  (((blank kind).addStates states).addSymbols symbols).addEdges edges

lemma mem_alphabet_blank : s ∈ (blank kind).alphabet ↔ s = epsilon ∧ kind = .nondeterministic := by
  cases kind with
  | nondeterministic =>
      change s ∈ SortedSet.ofList [epsilon] ↔ _
      rw [SortedSet.mem_ofList, List.mem_singleton, and_iff_left rfl]
  | deterministic =>
      exact iff_of_false (SortedSet.not_mem_empty s) fun h => by cases h.2

lemma get?_blank : (blank kind).states.get? q = none := by
  cases kind <;> rfl

lemma not_mem_edges_blank : e ∉ (blank kind).edges := by
  cases kind <;> exact SortedSet.not_mem_empty e

lemma get?_assemble : (assemble kind states symbols edges).states.get? q = states.lookup q := by
  rw [assemble, states_addEdges, states_addSymbols, get?_addStates, get?_blank, Option.none_or]

lemma hasState_blank : (blank kind).hasState q = false := by
  rw [hasState, SortedMap.contains, get?_blank, Option.isSome_none]

lemma hasState_assemble :
    (assemble kind states symbols edges).hasState q = true ↔ q ∈ states.map (·.1) := by
  rw [hasState, assemble, states_addEdges, states_addSymbols, ← hasState, hasState_addStates,
    hasState_blank, or_iff_right Bool.false_ne_true]

lemma mem_alphabet_assemble :
    s ∈ (assemble kind states symbols edges).alphabet ↔
      s ∈ symbols ∨ s = epsilon ∧ kind = .nondeterministic := by
  rw [assemble, alphabet_addEdges, mem_addSymbols, alphabet_addStates, mem_alphabet_blank]

lemma mem_edges_assemble :
    e ∈ (assemble kind states symbols edges).edges ↔
      e ∈ edges ∧ (assemble kind states symbols edges).knows e = true := by
  have hknows : (assemble kind states symbols edges).knows e =
      (((blank kind).addStates states).addSymbols symbols).knows e := by
    rw [assemble, knows, knows, alphabet_addEdges, hasState, hasState, states_addEdges]
    rfl
  rw [hknows, assemble, mem_addEdges, edges_addSymbols, edges_addStates,
    or_iff_left not_mem_edges_blank]

end Assemble

end Automaton

end FiniteAutomata
