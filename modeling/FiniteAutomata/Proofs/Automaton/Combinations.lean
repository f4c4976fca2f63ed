import FiniteAutomata.Proofs.Automaton.Copies

/-!
# What combinations of automata consist of

Sequence, choice and repetition put copies side by side and connect them.  Each construction is
described here once by its states and its edges; all that is said about the combinations later
follows from these descriptions.  They hold for all operands, also for the same automaton twice and
for automata whose labels look like those of the supply.

* `get?_enter`, `mem_edges_enter` — a new state in front, as choice and repetition have one.
* `get?_concat`, `mem_edges_concat` — the sequence of two automata.
* `get?_union`, `mem_edges_union` — the choice between two automata.
* `get?_iterate`, `mem_edges_iterate` — the repetition of an automaton;
  `mem_edges_withRepeats` leaves open which edges lead back.
-/

namespace FiniteAutomata

/-- What is left of a supply after a copy of `A`. -/
def LabelSupply.after (supply : LabelSupply) (A : Automaton) : LabelSupply :=
  ⟨supply.handedOut + A.states.size⟩

namespace Automaton

variable {A B R : Automaton} {supply : LabelSupply} {cleared f : Flags} {q r t x : Label}
  {e : Edge}

lemma epsilon_mem_blank : epsilon ∈ (blank .nondeterministic).alphabet :=
  SortedSet.mem_ofList.2 (List.mem_singleton.2 rfl)

lemma get?_copyInto_blank :
    (A.copyInto (blank .nondeterministic) cleared supply).automaton.states.get? x = some f ↔
      ∃ q g, A.states.get? q = some g ∧ x = A.copyLabel supply q ∧ f = g.without cleared := by
  rw [get?_copyInto (freshFor_blank _ _)]
  exact or_iff_right (by simp [blank])

lemma mem_edges_copyInto_blank :
    e ∈ (A.copyInto (blank .nondeterministic) cleared supply).automaton.edges ↔
      ∃ d ∈ A.edges, e = d.rename (A.copyLabel supply) := by
  rw [mem_edges_copyInto (freshFor_blank _ _)]
  exact or_iff_left (SortedSet.not_mem_empty e)

/-! ## Connecting states -/

/-- If the states are there, and `epsilon` is in the alphabet, then all edges are added. -/
lemma mem_connect {sources targets : List Label} (hε : epsilon ∈ A.alphabet)
    (hsources : ∀ q ∈ sources, A.hasState q = true)
    (htargets : ∀ t ∈ targets, A.hasState t = true) :
    e ∈ (A.connect sources targets).edges ↔
      (∃ q ∈ sources, ∃ t ∈ targets, e = ⟨q, epsilon, t⟩) ∨ e ∈ A.edges := by
  rw [connect, mem_addEdges]
  simp only [List.mem_flatMap, List.mem_map]
  refine or_congr_left ⟨?_, ?_⟩
  · rintro ⟨⟨q, hq, t, ht, rfl⟩, -⟩
    exact ⟨q, hq, t, ht, rfl⟩
  · rintro ⟨q, hq, t, ht, rfl⟩
    exact ⟨⟨q, hq, t, ht, rfl⟩, knows_iff.2 ⟨hsources q hq, hε, htargets t ht⟩⟩

@[simp] lemma states_connect {sources targets : List Label} :
    (A.connect sources targets).states = A.states := states_addEdges

lemma hasState_of_mem_initial (h : q ∈ A.initial) : A.hasState q = true := by
  obtain ⟨f, hf, -⟩ := mem_initial.1 h
  exact hasState_of_get? hf

lemma hasState_of_mem_final (h : q ∈ A.final) : A.hasState q = true := by
  obtain ⟨f, hf, -⟩ := mem_final.1 h
  exact hasState_of_get? hf

lemma hasState_copyLabel (fresh : supply.FreshFor R) (hq : A.hasState q = true) :
    (A.copyInto R cleared supply).automaton.hasState (A.copyLabel supply q) = true :=
  (hasState_copyInto fresh).2 (.inr ⟨q, hq, rfl⟩)

/-! ## Beginning with a new state -/

section Enter

variable {entry : Label} {g : Flags} {targets : List Label}

/-- A state that is new keeps all others as they are. -/
lemma get?_enter (hnew : A.states.get? entry = none) :
    ((A.addState entry g).connect [entry] targets).states.get? x = some f ↔
      (x = entry ∧ f = g) ∨ A.states.get? x = some f := by
  rw [states_connect, get?_addState]
  by_cases hx : x = entry
  · simp [hx, hnew, eq_comm]
  · simp [hx]

/-- The edges that are added lead from the new state to each of the targets. -/
lemma mem_edges_enter (hε : epsilon ∈ A.alphabet) (hnew : A.states.get? entry = none)
    (htargets : ∀ t ∈ targets, A.hasState t = true) :
    e ∈ ((A.addState entry g).connect [entry] targets).edges ↔
      (∃ t ∈ targets, e = ⟨entry, epsilon, t⟩) ∨ e ∈ A.edges := by
  have hε' : epsilon ∈ (A.addState entry g).alphabet := by
    rw [alphabet_addState]
    exact hε
  have hentry : ∀ q ∈ [entry], (A.addState entry g).hasState q = true := by
    intro q hq
    rw [List.mem_singleton.1 hq]
    exact hasState_of_get? (get?_addState_self hnew)
  have hkept : ∀ t ∈ targets, (A.addState entry g).hasState t = true := by
    intro t ht
    obtain ⟨k, hk⟩ := hasState_iff.1 (htargets t ht)
    have hne : t ≠ entry := fun heq => by simp [heq, hnew] at hk
    exact hasState_of_get? ((get?_addState_of_ne hne).trans hk)
  rw [mem_connect hε' hentry hkept, edges_addState]
  simp

end Enter

/-! ## Two copies side by side -/

/-- Copies of two automata in one, as sequence and choice begin with. -/
def sideBySide (A B : Automaton) (clearedLeft : Flags) (supply : LabelSupply) : Automaton :=
  (B.copyInto (A.copyInto (blank .nondeterministic) clearedLeft supply).automaton .onlyInitial
    (supply.after A)).automaton

lemma freshFor_left :
    (supply.after A).FreshFor (A.copyInto (blank .nondeterministic) cleared supply).automaton :=
  freshFor_copyInto (freshFor_blank _ _)

lemma freshFor_sideBySide :
    ((supply.after A).after B).FreshFor (A.sideBySide B cleared supply) :=
  freshFor_copyInto freshFor_left

lemma epsilon_mem_sideBySide : epsilon ∈ (A.sideBySide B cleared supply).alphabet :=
  mem_alphabet_copyInto.2 (.inr (mem_alphabet_copyInto.2 (.inr epsilon_mem_blank)))

lemma get?_sideBySide :
    (A.sideBySide B cleared supply).states.get? x = some f ↔
      (∃ q g, A.states.get? q = some g ∧ x = A.copyLabel supply q ∧ f = g.without cleared) ∨
        ∃ q g, B.states.get? q = some g ∧ x = B.copyLabel (supply.after A) q ∧
          f = g.without .onlyInitial := by
  rw [sideBySide, get?_copyInto freshFor_left, get?_copyInto_blank]

lemma mem_edges_sideBySide :
    e ∈ (A.sideBySide B cleared supply).edges ↔
      (∃ d ∈ A.edges, e = d.rename (A.copyLabel supply)) ∨
        ∃ d ∈ B.edges, e = d.rename (B.copyLabel (supply.after A)) := by
  rw [sideBySide, mem_edges_copyInto freshFor_left, mem_edges_copyInto_blank, or_comm]

lemma hasState_sideBySide_left (hq : A.hasState q = true) :
    (A.sideBySide B cleared supply).hasState (A.copyLabel supply q) = true :=
  (hasState_copyInto freshFor_left).2 (.inl (hasState_copyLabel (freshFor_blank _ _) hq))

lemma hasState_sideBySide_right (hq : B.hasState q = true) :
    (A.sideBySide B cleared supply).hasState (B.copyLabel (supply.after A) q) = true :=
  hasState_copyLabel freshFor_left hq

/-! ## Sequence -/

lemma concat_eq :
    (A.concat B supply).1 =
      (A.sideBySide B .onlyFinal supply).connect
        (A.final.toList.map (A.copyLabel supply))
        (B.initial.toList.map (B.copyLabel (supply.after A))) := rfl

/-- The states of a sequence are the copies of the states of both; those of the left one are not
final any more, and those of the right one not initial. -/
theorem get?_concat :
    (A.concat B supply).1.states.get? x = some f ↔
      (∃ q g, A.states.get? q = some g ∧ x = A.copyLabel supply q ∧ f = g.without .onlyFinal) ∨
        ∃ q g, B.states.get? q = some g ∧ x = B.copyLabel (supply.after A) q ∧
          f = g.without .onlyInitial := by
  rw [concat_eq, states_connect, get?_sideBySide]

/-- In a sequence edges lead from what was final on the left to what was initial on the right. -/
theorem mem_edges_concat :
    e ∈ (A.concat B supply).1.edges ↔
      (∃ q ∈ A.final, ∃ t ∈ B.initial,
        e = ⟨A.copyLabel supply q, epsilon, B.copyLabel (supply.after A) t⟩) ∨
      (∃ d ∈ A.edges, e = d.rename (A.copyLabel supply)) ∨
        ∃ d ∈ B.edges, e = d.rename (B.copyLabel (supply.after A)) := by
  rw [concat_eq, mem_connect epsilon_mem_sideBySide, mem_edges_sideBySide]
  · simp only [List.mem_map, SortedSet.mem_toList, exists_exists_and_eq_and]
  · intro x hx
    obtain ⟨q, hq, rfl⟩ := List.mem_map.1 hx
    exact hasState_sideBySide_left (hasState_of_mem_final hq)
  · intro x hx
    obtain ⟨q, hq, rfl⟩ := List.mem_map.1 hx
    exact hasState_sideBySide_right (hasState_of_mem_initial hq)

/-! ## Choice -/

/-- The label of the state that a choice begins with. -/
def unionEntry (A B : Automaton) (supply : LabelSupply) : Label :=
  LabelSupply.label ((supply.after A).after B).handedOut

lemma union_eq :
    (A.union B supply).1 =
      ((A.sideBySide B .onlyInitial supply).addState (A.unionEntry B supply) .onlyInitial).connect
        [A.unionEntry B supply]
        (A.initial.toList.map (A.copyLabel supply) ++
          B.initial.toList.map (B.copyLabel (supply.after A))) := rfl

lemma get?_sideBySide_unionEntry :
    (A.sideBySide B cleared supply).states.get? (A.unionEntry B supply) = none :=
  freshFor_sideBySide _ le_rfl

/-- The states of a choice are a new one, which is initial, and the copies of the states of both,
none of which is initial. -/
theorem get?_union :
    (A.union B supply).1.states.get? x = some f ↔
      (x = A.unionEntry B supply ∧ f = .onlyInitial) ∨
      (∃ q g, A.states.get? q = some g ∧ x = A.copyLabel supply q ∧ f = g.without .onlyInitial) ∨
        ∃ q g, B.states.get? q = some g ∧ x = B.copyLabel (supply.after A) q ∧
          f = g.without .onlyInitial := by
  rw [union_eq, get?_enter get?_sideBySide_unionEntry, get?_sideBySide]

/-- In a choice edges lead from the new state to what was initial in either. -/
theorem mem_edges_union :
    e ∈ (A.union B supply).1.edges ↔
      (∃ q ∈ A.initial, e = ⟨A.unionEntry B supply, epsilon, A.copyLabel supply q⟩) ∨
      (∃ q ∈ B.initial,
        e = ⟨A.unionEntry B supply, epsilon, B.copyLabel (supply.after A) q⟩) ∨
      (∃ d ∈ A.edges, e = d.rename (A.copyLabel supply)) ∨
        ∃ d ∈ B.edges, e = d.rename (B.copyLabel (supply.after A)) := by
  rw [union_eq, mem_edges_enter epsilon_mem_sideBySide get?_sideBySide_unionEntry,
    mem_edges_sideBySide]
  · simp only [List.mem_append, List.mem_map, SortedSet.mem_toList, or_and_right, exists_or,
      exists_exists_and_eq_and, or_assoc]
  · intro x hx
    rcases List.mem_append.1 hx with hx | hx
    · obtain ⟨q, hq, rfl⟩ := List.mem_map.1 hx
      exact hasState_sideBySide_left (hasState_of_mem_initial hq)
    · obtain ⟨q, hq, rfl⟩ := List.mem_map.1 hx
      exact hasState_sideBySide_right (hasState_of_mem_initial hq)

/-! ## Repetition -/

/-- The label of the state that a repetition begins with. -/
def iterateEntry (A : Automaton) (supply : LabelSupply) : Label :=
  LabelSupply.label (supply.after A).handedOut

/-- The copy that is repeated. -/
def iterateCopy (A : Automaton) (supply : LabelSupply) : Automaton :=
  (A.copyInto (blank .nondeterministic) .onlyInitial supply).automaton

/-- The edges back to the beginning. -/
def iterateEdges (A : Automaton) (supply : LabelSupply) : List Edge :=
  (A.final.toList.map (A.copyLabel supply)).flatMap fun q =>
    ((A.initial.toList.map (A.copyLabel supply)).filter (· != q)).map fun t => ⟨q, epsilon, t⟩

/-- The copy with edges for going through it again, and the state to begin with. -/
def withRepeats (A : Automaton) (supply : LabelSupply) (again : List Edge) : Automaton :=
  (((A.iterateCopy supply).addEdges again).addState (A.iterateEntry supply) .both).connect
    [A.iterateEntry supply] (A.initial.toList.map (A.copyLabel supply))

lemma iterate_eq : (A.iterate supply).1 = A.withRepeats supply (A.iterateEdges supply) := rfl

lemma epsilon_mem_iterateCopy : epsilon ∈ (A.iterateCopy supply).alphabet :=
  mem_alphabet_copyInto.2 (.inr epsilon_mem_blank)

lemma hasState_iterateCopy (hq : A.hasState q = true) :
    (A.iterateCopy supply).hasState (A.copyLabel supply q) = true :=
  hasState_copyLabel (freshFor_blank _ _) hq

lemma mem_edges_iterateCopy :
    e ∈ (A.iterateCopy supply).edges ↔ ∃ d ∈ A.edges, e = d.rename (A.copyLabel supply) :=
  mem_edges_copyInto_blank

lemma get?_iterateCopy_iterateEntry :
    (A.iterateCopy supply).states.get? (A.iterateEntry supply) = none :=
  freshFor_left _ le_rfl

lemma mem_iterateEdges :
    e ∈ A.iterateEdges supply ↔
      ∃ q ∈ A.final, ∃ t ∈ A.initial, A.copyLabel supply t ≠ A.copyLabel supply q ∧
        e = ⟨A.copyLabel supply q, epsilon, A.copyLabel supply t⟩ := by
  simp only [iterateEdges, List.mem_flatMap, List.mem_map, List.mem_filter, SortedSet.mem_toList,
    bne_iff_ne]
  constructor
  · rintro ⟨_, ⟨q, hq, rfl⟩, _, ⟨⟨t, ht, rfl⟩, hne⟩, rfl⟩
    exact ⟨q, hq, t, ht, hne, rfl⟩
  · rintro ⟨q, hq, t, ht, hne, rfl⟩
    exact ⟨_, ⟨q, hq, rfl⟩, _, ⟨⟨t, ht, rfl⟩, hne⟩, rfl⟩

section WithRepeats

variable {again : List Edge}

lemma get?_addEdges_iterateEntry :
    ((A.iterateCopy supply).addEdges again).states.get? (A.iterateEntry supply) = none := by
  rw [states_addEdges, get?_iterateCopy_iterateEntry]

lemma get?_withRepeats :
    (A.withRepeats supply again).states.get? x = some f ↔
      (x = A.iterateEntry supply ∧ f = .both) ∨
        ∃ q g, A.states.get? q = some g ∧ x = A.copyLabel supply q ∧
          f = g.without .onlyInitial := by
  rw [withRepeats, get?_enter get?_addEdges_iterateEntry, states_addEdges, iterateCopy,
    get?_copyInto_blank]

/-- If the edges for going through the copy again are known there, all of them are added. -/
lemma mem_edges_withRepeats (hagain : ∀ d ∈ again, (A.iterateCopy supply).knows d = true) :
    e ∈ (A.withRepeats supply again).edges ↔
      (∃ q ∈ A.initial, e = ⟨A.iterateEntry supply, epsilon, A.copyLabel supply q⟩) ∨
        e ∈ again ∨ ∃ d ∈ A.edges, e = d.rename (A.copyLabel supply) := by
  have hε : epsilon ∈ ((A.iterateCopy supply).addEdges again).alphabet := by
    rw [alphabet_addEdges]
    exact epsilon_mem_iterateCopy
  rw [withRepeats, mem_edges_enter hε get?_addEdges_iterateEntry, mem_addEdges,
    and_iff_left_of_imp (hagain e), mem_edges_iterateCopy]
  · simp only [List.mem_map, SortedSet.mem_toList, exists_exists_and_eq_and]
  · intro x hx
    obtain ⟨q, hq, rfl⟩ := List.mem_map.1 hx
    rw [hasState, states_addEdges]
    exact hasState_iterateCopy (hasState_of_mem_initial hq)

end WithRepeats

/-- Edges between the copies of what was final and what was initial are known in the copy. -/
lemma knows_iterateCopy (hq : q ∈ A.final) (ht : t ∈ A.initial) :
    (A.iterateCopy supply).knows ⟨A.copyLabel supply q, epsilon, A.copyLabel supply t⟩ = true :=
  knows_iff.2 ⟨hasState_iterateCopy (hasState_of_mem_final hq), epsilon_mem_iterateCopy,
    hasState_iterateCopy (hasState_of_mem_initial ht)⟩

/-- The states of a repetition are a new one, which is initial and final, and the copies, none of
which is initial. -/
theorem get?_iterate :
    (A.iterate supply).1.states.get? x = some f ↔
      (x = A.iterateEntry supply ∧ f = .both) ∨
        ∃ q g, A.states.get? q = some g ∧ x = A.copyLabel supply q ∧
          f = g.without .onlyInitial := by
  rw [iterate_eq, get?_withRepeats]

/-- In a repetition edges lead from what was final, and from the new state, to what was initial. -/
theorem mem_edges_iterate :
    e ∈ (A.iterate supply).1.edges ↔
      (∃ q ∈ A.initial, e = ⟨A.iterateEntry supply, epsilon, A.copyLabel supply q⟩) ∨
      (∃ q ∈ A.final, ∃ t ∈ A.initial, A.copyLabel supply t ≠ A.copyLabel supply q ∧
        e = ⟨A.copyLabel supply q, epsilon, A.copyLabel supply t⟩) ∨
        ∃ d ∈ A.edges, e = d.rename (A.copyLabel supply) := by
  have hagain : ∀ d ∈ A.iterateEdges supply, (A.iterateCopy supply).knows d = true := by
    intro d hd
    obtain ⟨q, hq, t, ht, -, rfl⟩ := mem_iterateEdges.1 hd
    exact knows_iterateCopy hq ht
  rw [iterate_eq, mem_edges_withRepeats hagain, mem_iterateEdges]

end Automaton

end FiniteAutomata
