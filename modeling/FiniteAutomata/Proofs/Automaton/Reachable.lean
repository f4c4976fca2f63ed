import FiniteAutomata.Proofs.Automaton.Determinize

/-!
# Determinizing what is deterministic

The sets that the simulation of a deterministic automaton passes through have one member each, and
their joined labels are the labels of their members.  So determinizing such an automaton keeps the
states that can be reached, under the labels that they had, and drops the others.  What has been made
deterministic is of this kind and has only states that can be reached; hence nothing changes when it
is made deterministic again.

* `Reachable`, `reachablePart` — the states that edges lead to, and the automaton with these alone.
* `successors_single`, `discovered_iff_of_isDeterministic` — every set has one member.
* `determinize_eq_reachablePart` — determinizing keeps the reachable part and renames nothing.
* `reachablePart_determinize` — all states of the result can be reached.
* **`determinize_keeps_reachablePart`** — both together: determinizing twice is determinizing once.
-/

namespace FiniteAutomata.Automaton

open Relation

variable {A D : Automaton} {S T : StateSet} {p q t : Label} {s : Symbol} {f : Flags} {e : Edge}

/-! ## The reachable part -/

/-- An edge, on whatever symbol, leads from the first state to the second. -/
def Adjacent (A : Automaton) (q t : Label) : Prop := ∃ s, ⟨q, s, t⟩ ∈ A.edges

/-- Edges lead from the first state to the second, in any number of steps. -/
def Reachable (A : Automaton) : Label → Label → Prop := ReflTransGen A.Adjacent

lemma Reachable.edge (h : A.Reachable q e.source) (he : e ∈ A.edges) : A.Reachable q e.target :=
  .tail h ⟨e.symbol, he⟩

open Classical in
/-- The states that can be reached from a state, with their marks, and the edges between them.  The
symbol `epsilon` and its edges are left out. -/
noncomputable def reachablePart (A : Automaton) (q : Label) : Automaton where
  alphabet := A.letters
  states := ⟨A.states.toList.filter fun x => A.Reachable q x.1, A.states.sorted.filter _⟩
  edges := A.edges.filter fun e => e.symbol ≠ epsilon ∧ A.Reachable q e.source
  known e he := by
    have hstate : ∀ l, A.hasState l = true → A.Reachable q l → SortedMap.contains
        ⟨A.states.toList.filter fun x => A.Reachable q x.1, A.states.sorted.filter _⟩ l = true := by
      intro l hl hreach
      obtain ⟨f, hf⟩ := hasState_iff.1 hl
      refine SortedMap.contains_eq_true_iff.2 ⟨f, SortedMap.mem_toList_iff.1 ?_⟩
      simpa [hreach] using mem_states_toList.2 hf
    obtain ⟨hmem, hkeep⟩ := SortedSet.mem_filter.1 he
    obtain ⟨hsymbol, hreach⟩ := of_decide_eq_true hkeep
    obtain ⟨hsource, halphabet, htarget⟩ := knows_iff.1 (knows_of_mem hmem)
    refine ⟨⟨hstate _ hsource hreach, ?_⟩, hstate _ htarget (hreach.edge hmem)⟩
    exact SortedSet.contains_iff_mem.2 (mem_letters.2 ⟨halphabet, hsymbol⟩)

lemma get?_reachablePart :
    (A.reachablePart q).states.get? t = some f ↔ A.states.get? t = some f ∧ A.Reachable q t := by
  rw [← mem_states_toList, ← mem_states_toList]
  simp [reachablePart]

lemma mem_edges_reachablePart :
    e ∈ (A.reachablePart q).edges ↔ e ∈ A.edges ∧ e.symbol ≠ epsilon ∧ A.Reachable q e.source := by
  simp [reachablePart]

/-! ## Sets with one member -/

/-- The set of one state. -/
def single (q : Label) : StateSet := ⟨[q], List.pairwise_singleton _ _⟩

lemma mem_single : t ∈ single q ↔ t = q := List.mem_singleton

lemma eq_single (h : ∀ t, t ∈ S ↔ t = q) : S = single q :=
  SortedSet.ext fun t => (h t).trans mem_single.symm

lemma joinLabels_single (q : Label) : joinLabels (single q) = q := by
  simp [joinLabels, single, String.join]

/-! ## The sets of a deterministic automaton -/

section Deterministic

lemma symbol_ne_epsilon (hdet : D.isDeterministic = true) (he : e ∈ D.edges) :
    e.symbol ≠ epsilon :=
  (isDeterministic_iff.1 hdet e.source e.symbol e.target he).1

/-- A symbol leads from a state to one state at most. -/
lemma target_unique (hdet : D.isDeterministic = true) {t' : Label} (h : ⟨q, s, t⟩ ∈ D.edges)
    (h' : ⟨q, s, t'⟩ ∈ D.edges) : t = t' :=
  (isDeterministic_iff.1 hdet q s t' h').2 t h

lemma closure_of_isDeterministic (hdet : D.isDeterministic = true) (S : StateSet) :
    D.closure S = S :=
  closure_eq_of_closed fun _ _ _ edge => absurd rfl (symbol_ne_epsilon hdet edge)

/-- **From a set with one member, every move leads to such a set along an edge.** -/
theorem successors_single (hdet : D.isDeterministic = true) :
    (s, T) ∈ D.successors (single q) ↔ ∃ t, T = single t ∧ ⟨q, s, t⟩ ∈ D.edges := by
  have hadvance : ∀ t, t ∈ D.advance (single q) s ↔ ⟨q, s, t⟩ ∈ D.edges := by
    intro t
    rw [advance, closure_of_isDeterministic hdet, mem_step]
    simp [mem_single]
  have hsingle : ∀ t, ⟨q, s, t⟩ ∈ D.edges → D.advance (single q) s = single t := by
    intro t ht
    refine eq_single fun t' => (hadvance t').trans ⟨fun ht' => target_unique hdet ht' ht, ?_⟩
    rintro rfl
    exact ht
  rw [mem_successors]
  constructor
  · rintro ⟨-, rfl, t, ht⟩
    have hedge := (hadvance t).1 ht
    exact ⟨t, hsingle t hedge, hedge⟩
  · rintro ⟨t, rfl, hedge⟩
    refine ⟨?_, (hsingle t hedge).symm, t, mem_single.2 rfl⟩
    exact mem_letters.2 ⟨(knows_iff.1 (knows_of_mem hedge)).2.1, symbol_ne_epsilon hdet hedge⟩

variable (hdet : D.isDeterministic = true) (hinitial : ∀ t, t ∈ D.initial ↔ t = q)

include hdet hinitial

lemma start_of_isDeterministic : D.start = single q := by
  rw [start, closure_of_isDeterministic hdet, eq_single hinitial]

/-- **The sets that are found are those of one reachable state.** -/
theorem discovered_iff_of_isDeterministic :
    D.Discovered S ↔ ∃ p, S = single p ∧ D.Reachable q p := by
  constructor
  · intro h
    induction h with
    | start => exact ⟨q, start_of_isDeterministic hdet hinitial, .refl⟩
    | move _ hmove ih =>
        obtain ⟨p, rfl, hreach⟩ := ih
        obtain ⟨t, rfl, hedge⟩ := (successors_single hdet).1 hmove
        exact ⟨t, rfl, hreach.tail ⟨_, hedge⟩⟩
  · rintro ⟨p, rfl, hreach⟩
    induction hreach with
    | refl => exact start_of_isDeterministic hdet hinitial ▸ .start
    | tail _ hstep ih =>
        obtain ⟨s, hedge⟩ := hstep
        exact .move ih ((successors_single hdet).2 ⟨_, rfl, hedge⟩)

lemma names_of_isDeterministic :
    (∀ p, D.Reachable q p → D.setLabel (single p) = p) ∧ D.labelClashes = [] := by
  have hsets {S : StateSet} := @discovered_iff_of_isDeterministic D S q hdet hinitial
  obtain ⟨hlabel, hclashes⟩ := names_of_joinLabels_injective (A := D) fun S T hS hT h => by
    obtain ⟨p, rfl, -⟩ := hsets.1 hS
    obtain ⟨r, rfl, -⟩ := hsets.1 hT
    rw [joinLabels_single, joinLabels_single] at h
    rw [h]
  refine ⟨fun p hreach => ?_, hclashes⟩
  rw [hlabel _ (hsets.2 ⟨p, rfl, hreach⟩), joinLabels_single]

/-- A state that is reached is there, and its marks are those of the set that it makes up. -/
lemma setFlags_single (hreach : D.Reachable q p) :
    D.states.get? p = some (D.setFlags (single p)) := by
  have hdiscovered := (discovered_iff_of_isDeterministic hdet hinitial).2 ⟨p, rfl, hreach⟩
  obtain ⟨f, hf⟩ := hasState_iff.1 (hdiscovered.hasState p (mem_single.2 rfl))
  have hstart : (single p == D.start) = f.initial := by
    rw [start_of_isDeterministic hdet hinitial, Bool.eq_iff_iff, beq_iff_eq]
    have hmem : p ∈ D.initial ↔ f.initial = true := by
      rw [mem_initial, hf]
      simp
    rw [← hmem, hinitial]
    refine ⟨fun h => mem_single.1 (h ▸ mem_single.2 rfl), fun h => by rw [h]⟩
  have hfinal : D.hasFinal (single p) = f.final := by
    simp [hasFinal, single, isFinal, flags?, hf]
  rw [hf, setFlags, hstart, hfinal]

/-- **Determinizing keeps the reachable part of a deterministic automaton as it is.** -/
theorem determinize_eq_reachablePart : D.determinize = D.reachablePart q := by
  have hsets {S : StateSet} := @discovered_iff_of_isDeterministic D S q hdet hinitial
  obtain ⟨hlabel, -⟩ := names_of_isDeterministic hdet hinitial
  refine ext_of_mem (fun s => ?_) (fun t => ?_) fun e => ?_
  · rw [alphabet_determinize]
    rfl
  · ext f
    rw [get?_determinize, get?_reachablePart]
    constructor
    · rintro ⟨S, hS, rfl, rfl⟩
      obtain ⟨p, rfl, hreach⟩ := hsets.1 hS
      rw [hlabel p hreach]
      exact ⟨setFlags_single hdet hinitial hreach, hreach⟩
    · rintro ⟨hf, hreach⟩
      refine ⟨single t, hsets.2 ⟨t, rfl, hreach⟩, (hlabel t hreach).symm, ?_⟩
      rw [setFlags_single hdet hinitial hreach] at hf
      exact (Option.some.inj hf).symm
  · rw [mem_edges_determinize, mem_edges_reachablePart]
    constructor
    · rintro ⟨S, s, T, hS, hmove, rfl⟩
      obtain ⟨p, rfl, hreach⟩ := hsets.1 hS
      obtain ⟨t, rfl, hedge⟩ := (successors_single hdet).1 hmove
      rw [hlabel p hreach, hlabel t (hreach.tail ⟨s, hedge⟩)]
      exact ⟨hedge, symbol_ne_epsilon hdet hedge, hreach⟩
    · rintro ⟨hedge, -, hreach⟩
      refine ⟨single e.source, e.symbol, single e.target, hsets.2 ⟨_, rfl, hreach⟩,
        (successors_single hdet).2 ⟨_, rfl, hedge⟩, ?_⟩
      rw [hlabel _ hreach, hlabel _ (hreach.edge hedge)]

end Deterministic

/-! ## Determinizing twice -/

lemma reachable_setLabel (hS : A.Discovered S) :
    A.determinize.Reachable (A.setLabel A.start) (A.setLabel S) := by
  induction hS with
  | start => exact .refl
  | @move S T s hS hmove ih =>
      exact ih.tail ⟨s, mem_edges_determinize.2 ⟨S, s, T, hS, hmove, rfl⟩⟩

/-- Every state of the deterministic automaton can be reached from its initial state. -/
lemma reachablePart_determinize (A : Automaton) :
    A.determinize.reachablePart (A.setLabel A.start) = A.determinize := by
  refine ext_of_mem (fun s => ?_) (fun t => ?_) fun e => ?_
  · rw [alphabet_determinize, ← letters_determinize]
    rfl
  · ext f
    rw [get?_reachablePart, and_iff_left_iff_imp]
    intro hf
    obtain ⟨S, hS, rfl, -⟩ := get?_determinize.1 hf
    exact reachable_setLabel hS
  · rw [mem_edges_reachablePart, and_iff_left_iff_imp]
    intro he
    refine ⟨symbol_ne_epsilon (isDeterministic_determinize A) he, ?_⟩
    obtain ⟨S, s, T, hS, -, rfl⟩ := mem_edges_determinize.1 he
    exact reachable_setLabel hS

/-- **Determinizing a deterministic automaton with one initial state leaves its reachable part**: the
labels, the marks and the edges are the same, and no label clashes.  So whatever an automaton is,
determinizing it twice is the same as determinizing it once. -/
theorem determinize_keeps_reachablePart :
    (∀ (D : Automaton) (q : Label), D.isDeterministic = true → (∀ t, t ∈ D.initial ↔ t = q) →
      D.determinize = D.reachablePart q ∧ D.labelClashes = []) ∧
    ∀ A : Automaton, A.determinize.determinize = A.determinize := by
  refine ⟨fun D q hdet hinitial => ?_, fun A => ?_⟩
  · exact ⟨determinize_eq_reachablePart hdet hinitial,
      (names_of_isDeterministic hdet hinitial).2⟩
  · rw [determinize_eq_reachablePart (isDeterministic_determinize A) fun _ => mem_initial_determinize,
      reachablePart_determinize]

/-- Three states with odd labels, one of which cannot be reached from the first. -/
def unreachedSample : Automaton :=
  build .nondeterministic [.state "" .onlyInitial false, .state "'" .onlyFinal false,
    .state "q" .empty false, .symbol "a", .edge ⟨"", "a", "'"⟩, .edge ⟨"q", "a", ""⟩]

theorem determinize_keeps_reachablePart_unreached :
    unreachedSample.isDeterministic = true ∧ (∀ t, t ∈ unreachedSample.initial ↔ t = "") ∧
      unreachedSample.determinize = unreachedSample.reachablePart "" ∧
      unreachedSample.labelClashes = [] := by
  have hdet : unreachedSample.isDeterministic = true := by decide
  have hinitial : ∀ t, t ∈ unreachedSample.initial ↔ t = "" := by
    intro t
    rw [SortedSet.mem_def, show unreachedSample.initial.toList = [""] by decide, List.mem_singleton]
  exact ⟨hdet, hinitial, determinize_keeps_reachablePart.1 unreachedSample "" hdet hinitial⟩

end FiniteAutomata.Automaton
