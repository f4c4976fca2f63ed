import FiniteAutomata.Proofs.Automaton.Determinize

/-!
# How long the exploration takes

The exploration and the search for a label are given bounds, and one may ask whether they would have
come to an end without.  They would.  The sets that wait form a queue: every step takes one from its
front, and puts at its end those that were never in it before.  No set comes back, the sets are sets of
states, and the empty set can only be the first one and is then the last one, too; so there are at most
as many steps as there are sets of states with a member.

* `explorationAfter` — the exploration step by step, with no bound.
* `length_le_of_discovered` — how many sets there can be.
* `size_determinize` — every set that has been looked at becomes a state.
* `exists_unusedLabel_eq` — the search for a label, with no bound.
* **`exploration_ends`** — the queue becomes empty, and all that is said about the number of steps.
-/

namespace FiniteAutomata.Automaton

variable {A : Automaton} {S : StateSet} {k : Nat}

/-! ## Steps without a bound -/

/-- The exploration after so many steps. -/
def explorationAfter (A : Automaton) (steps : Nat) : Exploration :=
  (Exploration.next A)^[steps] ⟨[], [A.start]⟩

lemma explorationAfter_succ (A : Automaton) (k : Nat) :
    A.explorationAfter (k + 1) = (A.explorationAfter k).next A :=
  Function.iterate_succ_apply' _ _ _

lemma valid_explorationAfter (A : Automaton) (k : Nat) : (A.explorationAfter k).Valid A :=
  Exploration.valid_start.iterate k

/-- What is put into the queue is behind all that was ever in it. -/
lemma explorationAfter_succ_of_waiting {waiting : List StateSet}
    (h : (A.explorationAfter k).waiting = S :: waiting) :
    (A.explorationAfter (k + 1)).sets = (A.explorationAfter k).sets ++ [S] ∧
      ∃ new, (A.explorationAfter (k + 1)).waiting = waiting ++ new ∧
        (A.explorationAfter (k + 1)).found = (A.explorationAfter k).found ++ new := by
  rw [explorationAfter_succ]
  refine ⟨Exploration.sets_next h, _, ?_, Exploration.found_next h⟩
  rw [Exploration.next, h, Exploration.found, h]

/-- The bounded exploration is the one without a bound, at the moment when nothing waits any more. -/
lemma exists_explorationAfter_eq (A : Automaton) :
    ∃ steps, A.exploration = A.explorationAfter steps ∧ A.exploration.sets.length = steps ∧
      ∀ k < steps, (A.explorationAfter k).waiting ≠ [] := by
  obtain ⟨steps, hsteps, hwaits, -⟩ :=
    @exists_exploreWithin_eq A (Nat.pow 2 A.states.size) ⟨[], [A.start]⟩
  refine ⟨steps, hsteps, ?_, hwaits⟩
  rw [exploration, hsteps, length_sets_iterate hwaits]
  exact Nat.zero_add _

/-! ## The number of sets -/

/-- **At most so many sets are found.** Either all of them have a member, or there is no initial state
and the empty set is the only one. -/
theorem length_le_of_discovered {sets : List StateSet} (hnodup : sets.Nodup)
    (hsets : ∀ S ∈ sets, A.Discovered S) : sets.length ≤ max 1 (2 ^ A.states.size - 1) := by
  by_cases hinitial : ∃ q, q ∈ A.initial
  · have hempty : ∅ ∈ A.stateSets := Finset.empty_mem_powerset _
    have hfamily : ∀ S ∈ sets, S.toList.toFinset ∈ A.stateSets.erase ∅ := by
      intro S hS
      obtain ⟨q, hq⟩ := (hsets S hS).exists_mem hinitial
      refine Finset.mem_erase.2 ⟨?_, toFinset_mem_stateSets (hsets S hS).hasState⟩
      exact Finset.ne_empty_of_mem (List.mem_toFinset.2 hq)
    calc sets.length ≤ (A.stateSets.erase ∅).card := length_le_card hnodup hfamily
      _ = 2 ^ A.states.size - 1 := by rw [Finset.card_erase_of_mem hempty, card_stateSets]
      _ ≤ max 1 (2 ^ A.states.size - 1) := le_max_right _ _
  · push Not at hinitial
    have hone : sets ⊆ [∅] := fun S hS => List.mem_singleton.2 ((hsets S hS).eq_empty hinitial)
    calc sets.length ≤ [(∅ : StateSet)].length := (hnodup.subperm hone).length_le
      _ ≤ max 1 (2 ^ A.states.size - 1) := le_max_left _ _

/-- Two states, and all three sets with a member. -/
example : (build .nondeterministic [.state "p" .onlyInitial false, .state "q" .empty false,
    .symbol "a", .symbol "b", .edge ⟨"p", "a", "q"⟩, .edge ⟨"p", "b", "p"⟩,
    .edge ⟨"p", "b", "q"⟩]).exploration.sets.length = max 1 (2 ^ 2 - 1) := by
  decide +kernel

/-- The names of the sets are all different, so there are as many states as sets. -/
lemma size_determinize (A : Automaton) :
    A.determinize.states.size = A.exploration.sets.length := by
  have hperm : A.determinize.states.keys.toList.Perm (A.names.map (·.2)) := by
    refine (List.perm_ext_iff_of_nodup nodup_keys (nodup_map_snd_nameSets _)).2 fun q => ?_
    rw [mem_keys_toList, hasState_determinize, List.mem_map]
    constructor
    · rintro ⟨S, hS, rfl⟩
      exact ⟨(S, A.setLabel S), mem_names.2 ⟨hS, rfl⟩, rfl⟩
    · rintro ⟨⟨S, label⟩, hmem, rfl⟩
      exact ⟨S, mem_names.1 hmem⟩
  have hsets : A.names.map (·.1) = A.exploration.sets := map_fst_nameSets _
  calc A.determinize.states.size = A.determinize.states.keys.toList.length := (List.length_map _).symm
    _ = A.names.length := by rw [hperm.length_eq, List.length_map]
    _ = A.exploration.sets.length := by rw [← hsets, List.length_map]

/-! ## Labels -/

/-- **A prime is added for as long as the label is in use**, and of one more labels than are in use one
is free. -/
theorem exists_unusedLabel_eq (used : List Label) (label : Label) :
    ∃ n ≤ used.length, (∀ j < n, label ++ primes j ∈ used) ∧ label ++ primes n ∉ used ∧
      unusedLabel used label = label ++ primes n := by
  obtain ⟨n, hn, heq, hbefore⟩ := primed_eq used used.length label
  exact ⟨n, hn, hbefore, heq ▸ unusedLabel_not_mem used label, heq⟩

/-! ## The whole exploration -/

/-- How the exploration goes if it makes so many steps until the queue is empty. -/
structure EndsAfter (A : Automaton) (steps : Nat) : Prop where
  waits : ∀ k < steps, (A.explorationAfter k).waiting ≠ []
  /-- Every step takes the set at the front of the queue and puts others at its end. -/
  step : ∀ k < steps, ∃ S waiting new, (A.explorationAfter k).waiting = S :: waiting ∧
    (A.explorationAfter (k + 1)).sets = (A.explorationAfter k).sets ++ [S] ∧
    (A.explorationAfter (k + 1)).waiting = waiting ++ new
  /-- No set was ever taken from the queue or is in it a second time. -/
  nodup : ∀ k, ((A.explorationAfter k).sets ++ (A.explorationAfter k).waiting).Nodup
  /-- All sets that were ever in the queue are sets of states. -/
  hasState : ∀ k, ∀ S ∈ (A.explorationAfter k).sets ++ (A.explorationAfter k).waiting,
    ∀ q ∈ S, A.hasState q = true
  empty : (A.explorationAfter steps).waiting = []

/-- **The queue becomes empty.**  Every set is in it at most once, the result has one state for each of
the sets that have been looked at, and there is a bound for their number.  The search for a label always
ends, too, whatever labels are in use. -/
theorem exploration_ends (A : Automaton) :
    (∃ steps ≤ max 1 (2 ^ A.states.size - 1), A.EndsAfter steps ∧
      A.exploration = A.explorationAfter steps ∧ (A.explorationAfter steps).sets.length = steps ∧
        A.determinize.states.size = steps) ∧
    ∀ (used : List Label) (label : Label), ∃ n ≤ used.length,
      (∀ j < n, label ++ primes j ∈ used) ∧ label ++ primes n ∉ used ∧
        unusedLabel used label = label ++ primes n := by
  refine ⟨?_, exists_unusedLabel_eq⟩
  obtain ⟨steps, hsteps, hlength, hwaits⟩ := exists_explorationAfter_eq A
  have hbound : A.exploration.sets.length ≤ max 1 (2 ^ A.states.size - 1) :=
    length_le_of_discovered exploration_sets_nodup fun _ hS => mem_exploration_sets.1 hS
  refine ⟨steps, hlength ▸ hbound, ⟨hwaits, fun k hk => ?_, fun k => ?_, fun k S hS => ?_, ?_⟩, hsteps,
    hsteps ▸ hlength, (size_determinize A).trans hlength⟩
  · obtain ⟨S, waiting, hw⟩ := List.exists_cons_of_ne_nil (hwaits k hk)
    obtain ⟨hsets, new, hnew, -⟩ := explorationAfter_succ_of_waiting hw
    exact ⟨S, waiting, new, hw, hsets, hnew⟩
  · exact (valid_explorationAfter A k).nodup
  · exact ((valid_explorationAfter A k).discovered S hS).hasState
  · exact hsteps ▸ exploration_waiting

end FiniteAutomata.Automaton
