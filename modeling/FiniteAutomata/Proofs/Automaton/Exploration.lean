import FiniteAutomata.Automaton.Determinize
import FiniteAutomata.Proofs.Automaton.Changes
import FiniteAutomata.Proofs.Automaton.Closure
import Mathlib.Data.Finset.Powerset
import Mathlib.Data.Fintype.Card

/-!
# What an exploration finds

The exploration of the sets of an automaton is a worklist: the sets that have been looked at, and
those that wait.  What every step preserves is `Exploration.Valid`; together with an empty worklist
it says that the sets are the smallest family that holds the starting set and is closed under
moves.  The worklist does become empty in the steps that it is given, because no set is found
twice and an automaton with `n` states has at most `2 ^ n` sets of states.

* `Discovered` — the smallest family of sets that holds the start and all moves.
* `Exploration.Valid`, `Exploration.Valid.next` — the invariant, and that a step keeps it.
* `exploration_waiting` — in the end nothing waits.
* **`mem_exploration_sets`** — the sets that are found are exactly those of the family.
-/

namespace FiniteAutomata.Automaton

open Relation

variable {A : Automaton} {S T : StateSet} {s : Symbol} {q : Label} {x : Exploration}

/-! ## Moves -/

lemma mem_successors :
    (s, T) ∈ A.successors S ↔ s ∈ A.letters ∧ T = A.advance S s ∧ ∃ q, q ∈ T := by
  simp only [successors, List.mem_filter, List.mem_map, SortedSet.mem_toList, Prod.mk.injEq,
    Bool.not_eq_true', ← Bool.not_eq_true, SortedSet.isEmpty_iff, not_forall, not_not]
  constructor
  · rintro ⟨⟨_, hs, rfl, rfl⟩, hT⟩
    exact ⟨hs, rfl, hT⟩
  · rintro ⟨hs, rfl, hT⟩
    exact ⟨⟨s, hs, rfl, rfl⟩, hT⟩

/-- The smallest family of sets that holds the starting set and every set that a move leads to. -/
inductive Discovered (A : Automaton) : StateSet → Prop
  | start : Discovered A A.start
  | move {S T : StateSet} {s : Symbol} :
      Discovered A S → (s, T) ∈ A.successors S → Discovered A T

/-! ### Only states are found -/

lemma hasState_of_path {t : Label} (hq : A.hasState q = true)
    (path : ReflTransGen A.EpsilonStep q t) : A.hasState t = true := by
  cases path with
  | refl => exact hq
  | tail _ edge => exact (A.known _ edge).2

lemma hasState_of_mem_closure (h : ∀ q ∈ S, A.hasState q = true) :
    ∀ t ∈ A.closure S, A.hasState t = true := by
  intro t ht
  obtain ⟨q, hq, path⟩ := mem_closure.1 ht
  exact hasState_of_path (h q hq) path

lemma hasState_of_mem_step : ∀ t ∈ A.step S s, A.hasState t = true := by
  intro t ht
  obtain ⟨q, -, edge⟩ := mem_step.1 ht
  exact (A.known _ edge).2

lemma hasState_of_mem_advance : ∀ t ∈ A.advance S s, A.hasState t = true :=
  hasState_of_mem_closure hasState_of_mem_step

/-- The sets of the family are sets of states of the automaton. -/
lemma Discovered.hasState (h : A.Discovered S) : ∀ q ∈ S, A.hasState q = true := by
  cases h with
  | start =>
      refine hasState_of_mem_closure fun q hq => ?_
      obtain ⟨f, hf, -⟩ := SortedMap.mem_keysWhere.1 hq
      exact SortedMap.contains_eq_true_iff.2 ⟨f, hf⟩
  | move _ hmove =>
      obtain ⟨-, rfl, -⟩ := mem_successors.1 hmove
      exact hasState_of_mem_advance

/-- The empty set is not found, except at the start of an automaton without initial states. -/
lemma Discovered.exists_mem (hinitial : ∃ q, q ∈ A.initial) (h : A.Discovered S) : ∃ q, q ∈ S := by
  cases h with
  | start =>
      obtain ⟨q, hq⟩ := hinitial
      exact ⟨q, mem_closure.2 ⟨q, hq, .refl⟩⟩
  | move _ hmove => exact (mem_successors.1 hmove).2.2

/-- Where there is no initial state, nothing is found but the empty set. -/
lemma Discovered.eq_empty (hnone : ∀ q, q ∉ A.initial) (h : A.Discovered S) : S = ∅ := by
  refine SortedSet.ext fun q => iff_of_false ?_ (SortedSet.not_mem_empty q)
  induction h generalizing q with
  | start =>
      intro hq
      obtain ⟨p, hp, -⟩ := mem_closure.1 hq
      exact hnone p hp
  | move _ hmove ih =>
      obtain ⟨-, rfl, p, hp⟩ := mem_successors.1 hmove
      obtain ⟨r, hr, -⟩ := mem_closure.1 hp
      obtain ⟨q, hq, -⟩ := mem_step.1 hr
      exact absurd hq (ih q)

/-! ### How many sets there are -/

/-- The sets of states of an automaton. -/
def stateSets (A : Automaton) : Finset (Finset Label) := A.states.keys.toList.toFinset.powerset

lemma card_stateSets (A : Automaton) : A.stateSets.card = 2 ^ A.states.size := by
  rw [stateSets, Finset.card_powerset, List.toFinset_card_of_nodup nodup_keys]
  exact congrArg _ (List.length_map _)

lemma toFinset_mem_stateSets (h : ∀ q ∈ S, A.hasState q = true) :
    S.toList.toFinset ∈ A.stateSets := by
  refine Finset.mem_powerset.2 fun q hq => ?_
  rw [List.mem_toFinset] at hq ⊢
  exact mem_keys_toList.2 (h q hq)

/-- Different sets have different members, so a list without repetitions is no longer than the family
that its sets are from. -/
lemma length_le_card {sets : List StateSet} {family : Finset (Finset Label)} (hnodup : sets.Nodup)
    (hfamily : ∀ S ∈ sets, S.toList.toFinset ∈ family) : sets.length ≤ family.card := by
  have hinj : Function.Injective fun S : StateSet => S.toList.toFinset := by
    intro S T hST
    refine SortedSet.ext fun q => ?_
    simpa using Finset.ext_iff.1 hST q
  calc sets.length = (sets.toFinset.image fun S => S.toList.toFinset).card := by
        rw [Finset.card_image_of_injective _ hinj, List.toFinset_card_of_nodup hnodup]
    _ ≤ family.card := by
        refine Finset.card_le_card fun F hF => ?_
        obtain ⟨S, hS, rfl⟩ := Finset.mem_image.1 hF
        exact hfamily S (List.mem_toFinset.1 hS)

/-- An automaton with `n` states has at most `2 ^ n` sets of states. -/
lemma length_le_two_pow {sets : List StateSet} (hnodup : sets.Nodup)
    (hstates : ∀ S ∈ sets, ∀ q ∈ S, A.hasState q = true) :
    sets.length ≤ 2 ^ A.states.size := by
  rw [← card_stateSets]
  exact length_le_card hnodup fun S hS => toFinset_mem_stateSets (hstates S hS)

/-! ## Sets that are new -/

lemma mem_unseen {known found : List StateSet} :
    T ∈ unseen known found ↔ T ∈ found ∧ T ∉ known := by
  induction found generalizing known with
  | nil => simp [unseen]
  | cons S found ih =>
      rw [unseen]
      split
      · rw [ih]
        grind
      · rw [List.mem_cons, ih]
        grind

lemma nodup_unseen {known found : List StateSet} : (unseen known found).Nodup := by
  induction found generalizing known with
  | nil => exact List.nodup_nil
  | cons S found ih =>
      rw [unseen]
      split
      · exact ih
      · exact List.nodup_cons.2 ⟨fun h => (mem_unseen.1 h).2 (List.mem_cons_self ..), ih⟩

/-! ## The invariant -/

/-- The sets that an exploration has found, whether or not they have been looked at. -/
def Exploration.found (x : Exploration) : List StateSet := x.sets ++ x.waiting

/-- What holds of an exploration at every moment: no set is found twice, all sets that have been
found belong to the family, and the moves of those that have been looked at are recorded and lead to
sets that have been found. -/
structure Exploration.Valid (A : Automaton) (x : Exploration) : Prop where
  recorded : ∀ p ∈ x.expanded, p.2 = A.successors p.1
  nodup : x.found.Nodup
  start : A.start ∈ x.found
  closed : ∀ S ∈ x.sets, ∀ m ∈ A.successors S, m.2 ∈ x.found
  discovered : ∀ S ∈ x.found, A.Discovered S

lemma Exploration.valid_start : Exploration.Valid A ⟨[], [A.start]⟩ where
  recorded := by simp
  nodup := by simp [found, sets]
  start := by simp [found]
  closed := by simp [sets]
  discovered := by
    intro S hS
    obtain rfl : S = A.start := by simpa [found, sets] using hS
    exact .start

lemma Exploration.sets_next {waiting : List StateSet} (h : x.waiting = S :: waiting) :
    (x.next A).sets = x.sets ++ [S] := by
  rw [next, h]
  simp [sets]

/-- A step adds the sets that are new to those that have been found. -/
lemma Exploration.found_next {waiting : List StateSet} (h : x.waiting = S :: waiting) :
    (x.next A).found = x.found ++ unseen x.found ((A.successors S).map (·.2)) := by
  rw [found, sets_next h, found, next, h]
  simp

/-- **A step keeps the invariant.** -/
theorem Exploration.Valid.next (valid : x.Valid A) : (x.next A).Valid A := by
  match hw : x.waiting with
  | [] =>
      rw [Exploration.next, hw]
      exact valid
  | S :: waiting =>
      have hS : S ∈ x.found := by simp [found, hw]
      have hfound := found_next (A := A) hw
      refine ⟨?_, ?_, ?_, ?_, ?_⟩
      · intro p hp
        rw [Exploration.next, hw] at hp
        rcases List.mem_append.1 hp with hp | hp
        · exact valid.recorded p hp
        · obtain rfl := List.mem_singleton.1 hp
          rfl
      · rw [hfound]
        refine List.nodup_append'.2 ⟨valid.nodup, nodup_unseen, ?_⟩
        exact fun T hT hnew => (mem_unseen.1 hnew).2 hT
      · rw [hfound]
        exact List.mem_append_left _ valid.start
      · intro T hT m hm
        rw [sets_next hw] at hT
        rw [hfound, List.mem_append]
        rcases List.mem_append.1 hT with hT | hT
        · exact .inl (valid.closed T hT m hm)
        · obtain rfl := List.mem_singleton.1 hT
          by_cases hknown : m.2 ∈ x.found
          · exact .inl hknown
          · exact .inr (mem_unseen.2 ⟨List.mem_map_of_mem hm, hknown⟩)
      · intro T hT
        rw [hfound] at hT
        rcases List.mem_append.1 hT with hT | hT
        · exact valid.discovered T hT
        · obtain ⟨m, hm, rfl⟩ := List.mem_map.1 (mem_unseen.1 hT).1
          exact .move (valid.discovered S hS) hm

lemma Exploration.Valid.iterate (valid : x.Valid A) (steps : Nat) :
    ((Exploration.next A)^[steps] x).Valid A := by
  induction steps with
  | zero => exact valid
  | succ steps ih =>
      rw [Function.iterate_succ_apply']
      exact ih.next

/-! ## The end of the exploration -/

/-- A bounded exploration makes steps as long as a set waits and the bound admits another one. -/
lemma exists_exploreWithin_eq (steps : Nat) (x : Exploration) :
    ∃ k, A.exploreWithin steps x = (Exploration.next A)^[k] x ∧
      (∀ j < k, ((Exploration.next A)^[j] x).waiting ≠ []) ∧
        ((A.exploreWithin steps x).waiting = [] ∨ k = steps) := by
  induction steps generalizing x with
  | zero => exact ⟨0, rfl, fun j hj => absurd hj (Nat.not_lt_zero j), .inr rfl⟩
  | succ steps ih =>
      rw [exploreWithin]
      split_ifs with hempty
      · exact ⟨0, rfl, fun j hj => absurd hj (Nat.not_lt_zero j), .inl (List.isEmpty_iff.1 hempty)⟩
      · obtain ⟨k, hk, hwaits, hend⟩ := ih (x.next A)
        refine ⟨k + 1, hk, fun j hj => ?_, hend.imp_right (congrArg Nat.succ)⟩
        cases j with
        | zero => exact fun h => hempty (List.isEmpty_iff.2 h)
        | succ j => exact hwaits j (Nat.lt_of_succ_lt_succ hj)

/-- As long as a set waits, each step looks at one. -/
lemma length_sets_iterate {k : Nat} (h : ∀ j < k, ((Exploration.next A)^[j] x).waiting ≠ []) :
    ((Exploration.next A)^[k] x).sets.length = x.sets.length + k := by
  induction k with
  | zero => rfl
  | succ k ih =>
      obtain ⟨S, waiting, hw⟩ := List.exists_cons_of_ne_nil (h k (Nat.lt_succ_self k))
      rw [Function.iterate_succ_apply', Exploration.sets_next hw, List.length_append,
        ih fun j hj => h j (Nat.lt_succ_of_lt hj), List.length_singleton, Nat.add_assoc]

/-- What the exploration from the initial states satisfies. -/
lemma exploration_valid : A.exploration.Valid A := by
  obtain ⟨k, hk, -⟩ := @exists_exploreWithin_eq A (Nat.pow 2 A.states.size) ⟨[], [A.start]⟩
  rw [exploration, hk]
  exact Exploration.valid_start.iterate k

/-- **In the end no set waits.** -/
theorem exploration_waiting : A.exploration.waiting = [] := by
  by_contra hwait
  have hlength : A.exploration.sets.length = 2 ^ A.states.size := by
    obtain ⟨k, hk, hwaits, hend⟩ :=
      @exists_exploreWithin_eq A (Nat.pow 2 A.states.size) ⟨[], [A.start]⟩
    obtain rfl := hend.resolve_left hwait
    rw [exploration, hk, length_sets_iterate hwaits]
    exact Nat.zero_add _
  have hbound : A.exploration.found.length ≤ 2 ^ A.states.size :=
    length_le_two_pow exploration_valid.nodup
      fun S hS => (exploration_valid.discovered S hS).hasState
  rw [Exploration.found, List.length_append] at hbound
  have := List.length_pos_iff.2 hwait
  omega

lemma exploration_found : A.exploration.found = A.exploration.sets := by
  rw [Exploration.found, exploration_waiting, List.append_nil]

lemma exploration_sets_nodup : A.exploration.sets.Nodup :=
  exploration_found ▸ exploration_valid.nodup

/-- **The sets that the exploration finds are exactly those of the family.** -/
theorem mem_exploration_sets : S ∈ A.exploration.sets ↔ A.Discovered S := by
  constructor
  · intro hS
    exact exploration_valid.discovered S (exploration_found ▸ hS)
  · intro h
    induction h with
    | start => exact exploration_found ▸ exploration_valid.start
    | move _ hmove ih => exact exploration_found ▸ exploration_valid.closed _ ih _ hmove

/-- The exploration records each set with its moves. -/
lemma mem_exploration_expanded {moves : List (Symbol × StateSet)} :
    (S, moves) ∈ A.exploration.expanded ↔ A.Discovered S ∧ moves = A.successors S := by
  constructor
  · intro hp
    exact ⟨mem_exploration_sets.1 (List.mem_map_of_mem hp), exploration_valid.recorded _ hp⟩
  · rintro ⟨hS, rfl⟩
    obtain ⟨⟨S', moves⟩, hp, rfl⟩ := List.mem_map.1 (mem_exploration_sets.2 hS)
    obtain rfl : moves = A.successors S' := exploration_valid.recorded _ hp
    exact hp

end FiniteAutomata.Automaton
