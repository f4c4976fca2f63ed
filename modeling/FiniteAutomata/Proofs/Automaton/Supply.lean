import FiniteAutomata.Proofs.Automaton.Combinations

/-!
# Where the labels of combinations come from

A combination takes the next labels of the supply, one for every state of its result, and hands the
supply on.  So the labels of a result follow from two numbers, how many labels were handed out before
and how many behind it, whatever the labels of the operands are; and what is made with one supply never
meets what was made with it earlier.

* `take_eq`, `copies_eq_take` — labels in order, and copies as the next of them.
* `Combination` — what can be made of automata, and how many states it has.
* **`hasState_make_iff`, `copied_append_entries`** — the states of a combination are the next labels.
* `Step`, `carryOut` — combinations one after the other, of earlier results or of anything else.
* **`labels_carryOut`** — each result has its own labels, and no two results have one in common.
-/

namespace FiniteAutomata

/-! ## Labels in order -/

namespace LabelSupply

variable {supply : LabelSupply} {m n : Nat} {q : Label}

lemma take_eq (supply : LabelSupply) (n : Nat) :
    supply.take n = ((List.range' supply.handedOut n).map label, ⟨supply.handedOut + n⟩) := by
  induction n generalizing supply with
  | zero => rfl
  | succ n ih =>
      simp only [take, next, ih, List.range'_succ, List.map_cons, Prod.mk.injEq, mk.injEq, true_and]
      omega

lemma mem_take :
    q ∈ (supply.take n).1 ↔
      ∃ m, supply.handedOut ≤ m ∧ m < supply.handedOut + n ∧ q = label m := by
  simp only [take_eq, List.mem_map, List.mem_range'_1, and_assoc, eq_comm]

lemma nodup_take : (supply.take n).1.Nodup := by
  rw [take_eq]
  exact (List.nodup_range' 1 (by decide)).map label_injective

lemma length_take : (supply.take n).1.length = n := by
  rw [take_eq, List.length_map, List.length_range']

/-- Labels may be taken all at once or in two goes. -/
lemma take_add :
    supply.take (m + n) =
      ((supply.take m).1 ++ ((supply.take m).2.take n).1, ((supply.take m).2.take n).2) := by
  simp only [take_eq, ← List.map_append, List.range'_append_1, Nat.add_assoc]

end LabelSupply

namespace Automaton

variable {A B : Automaton} {supply : LabelSupply} {flags cleared : Flags} {q x : Label}

/-- The labels of the copies of all states, in the order of the states. -/
def copies (A : Automaton) (supply : LabelSupply) : List Label :=
  A.states.keys.toList.map (A.copyLabel supply)

/-- **The copies get the next labels of the supply, each of them one.** -/
theorem copies_eq_take : A.copies supply = (supply.take A.states.size).1 := by
  refine List.ext_getElem ?_ fun i hi _ => ?_
  · rw [copies, List.length_map, length_keys_toList, LabelSupply.length_take]
  · simp only [copies, LabelSupply.take_eq, List.getElem_map, List.getElem_range', copyLabel,
      nodup_keys.idxOf_getElem, one_mul]

lemma mem_copies :
    x ∈ A.copies supply ↔ ∃ q, A.hasState q = true ∧ x = A.copyLabel supply q := by
  simp only [copies, List.mem_map, mem_keys_toList, eq_comm]

lemma after_eq_take : supply.after A = (supply.take A.states.size).2 := by
  rw [LabelSupply.take_eq]
  rfl

/-! ## States of combinations -/

lemma hasState_addState :
    (A.addState q flags).hasState x = true ↔ x = q ∨ A.hasState x = true := by
  rw [hasState_iff, hasState_iff, get?_addState]
  by_cases hx : x = q <;> simp [hx]

lemma hasState_connect {sources targets : List Label} :
    (A.connect sources targets).hasState x = A.hasState x := by
  rw [hasState, hasState, states_connect]

lemma hasState_copyInto_blank :
    (A.copyInto (blank .nondeterministic) cleared supply).automaton.hasState x = true ↔
      ∃ q, A.hasState q = true ∧ x = A.copyLabel supply q := by
  rw [hasState_copyInto (freshFor_blank _ _)]
  exact or_iff_right (by simp [hasState_iff, get?_blank])

lemma hasState_sideBySide :
    (A.sideBySide B cleared supply).hasState x = true ↔
      (∃ q, A.hasState q = true ∧ x = A.copyLabel supply q) ∨
        ∃ q, B.hasState q = true ∧ x = B.copyLabel (supply.after A) q := by
  rw [sideBySide, hasState_copyInto freshFor_left, hasState_copyInto_blank]

lemma hasState_concat :
    (A.concat B supply).1.hasState x = true ↔
      (∃ q, A.hasState q = true ∧ x = A.copyLabel supply q) ∨
        ∃ q, B.hasState q = true ∧ x = B.copyLabel (supply.after A) q := by
  rw [concat_eq, hasState_connect, hasState_sideBySide]

lemma hasState_union :
    (A.union B supply).1.hasState x = true ↔
      x = A.unionEntry B supply ∨
        (∃ q, A.hasState q = true ∧ x = A.copyLabel supply q) ∨
          ∃ q, B.hasState q = true ∧ x = B.copyLabel (supply.after A) q := by
  rw [union_eq, hasState_connect, hasState_addState, hasState_sideBySide]

lemma hasState_iterate :
    (A.iterate supply).1.hasState x = true ↔
      x = A.iterateEntry supply ∨ ∃ q, A.hasState q = true ∧ x = A.copyLabel supply q := by
  rw [iterate_eq, withRepeats, hasState_connect, hasState_addState, hasState, states_addEdges,
    ← hasState, iterateCopy, hasState_copyInto_blank]

end Automaton

/-! ## Combinations -/

/-- What can be made of automata with labels from a supply. -/
inductive Combination
  /-- One after the other. -/
  | concat (A B : Automaton)
  /-- One or the other. -/
  | union (A B : Automaton)
  /-- One any number of times. -/
  | iterate (A : Automaton)

namespace Combination

open Automaton

variable {c : Combination} {supply : LabelSupply} {q : Label}

/-- Makes the combination and hands on what is left of the supply. -/
def make : Combination → LabelSupply → Automaton × LabelSupply
  | concat A B => A.concat B
  | union A B => A.union B
  | iterate A => A.iterate

/-- The number of states of the result. -/
def stateCount : Combination → Nat
  | concat A B => A.states.size + B.states.size
  | union A B => A.states.size + B.states.size + 1
  | iterate A => A.states.size + 1

/-- The labels of the copies of all states of the operands, the left one first. -/
def copied : Combination → LabelSupply → List Label
  | concat A B, supply | union A B, supply => A.copies supply ++ B.copies (supply.after A)
  | iterate A, supply => A.copies supply

/-- The labels of the states that are no copies. -/
def entries : Combination → LabelSupply → List Label
  | concat _ _, _ => []
  | union A B, supply => [A.unionEntry B supply]
  | iterate A, supply => [A.iterateEntry supply]

lemma hasState_make_iff :
    (c.make supply).1.hasState q = true ↔ q ∈ c.copied supply ++ c.entries supply := by
  cases c with
  | concat A B =>
      rw [make, hasState_concat, ← mem_copies, ← mem_copies, copied, entries, List.append_nil,
        List.mem_append]
  | union A B =>
      rw [make, hasState_union, ← mem_copies, ← mem_copies, copied, entries, List.mem_append,
        List.mem_append, List.mem_singleton, or_comm]
  | iterate A =>
      rw [make, hasState_iterate, ← mem_copies, copied, entries, List.mem_append,
        List.mem_singleton, or_comm]

/-- Copies and new states together have the next labels of the supply. -/
lemma copied_append_entries (c : Combination) (supply : LabelSupply) :
    c.copied supply ++ c.entries supply = (supply.take c.stateCount).1 := by
  cases c with
  | concat A B =>
      simp only [copied, entries, stateCount, LabelSupply.take_add, copies_eq_take, after_eq_take,
        List.append_nil]
  | union A B =>
      have hentry : [A.unionEntry B supply] = (((supply.after A).after B).take 1).1 := rfl
      simp only [copied, entries, stateCount, hentry, LabelSupply.take_add, copies_eq_take,
        after_eq_take]
  | iterate A =>
      have hentry : [A.iterateEntry supply] = ((supply.after A).take 1).1 := rfl
      simp only [copied, entries, stateCount, hentry, LabelSupply.take_add, copies_eq_take,
        after_eq_take]

lemma handedOut_make :
    (c.make supply).2.handedOut = supply.handedOut + c.stateCount := by
  cases c with
  | concat A B | union A B => simp only [stateCount, ← Nat.add_assoc]; rfl
  | iterate A => rfl

/-- **The states of a combination have the next labels of the supply.** -/
theorem hasState_make : (c.make supply).1.hasState q = true ↔ q ∈ (supply.take c.stateCount).1 := by
  rw [hasState_make_iff, copied_append_entries]

/-- A result has as many states as its operands together, and the new ones. -/
lemma size_make : (c.make supply).1.states.size = c.stateCount := by
  have hperm : (c.make supply).1.states.keys.toList.Perm (supply.take c.stateCount).1 :=
    (List.perm_ext_iff_of_nodup nodup_keys LabelSupply.nodup_take).2 fun q =>
      mem_keys_toList.trans hasState_make
  rw [← length_keys_toList, hperm.length_eq, LabelSupply.length_take]

end Combination

/-! ## One combination after the other -/

/-- A combination with the supply that it was made with. -/
structure Step where
  combination : Combination
  before : LabelSupply

namespace Step

/-- What the step makes. -/
def result (step : Step) : Automaton := (step.combination.make step.before).1

/-- What the step leaves of the supply. -/
def behind (step : Step) : LabelSupply := (step.combination.make step.before).2

/-- The step labels the states of its result, and nothing else, with the labels that it takes. -/
structure OwnLabels (step : Step) : Prop where
  /-- It takes one label for every state. -/
  taken : step.behind.handedOut = step.before.handedOut + step.combination.stateCount
  size : step.result.states.size = step.combination.stateCount
  hasState_iff : ∀ q, step.result.hasState q = true ↔
    ∃ n, step.before.handedOut ≤ n ∧ n < step.behind.handedOut ∧ q = LabelSupply.label n
  /-- No two states of the operands have the same copy, whichever operand they are from. -/
  nodup : (step.combination.copied step.before).Nodup
  copied : ∀ q ∈ step.combination.copied step.before, step.result.hasState q = true

lemma ownLabels (step : Step) : step.OwnLabels where
  taken := Combination.handedOut_make
  size := Combination.size_make
  hasState_iff q := by
    rw [result, behind, Combination.hasState_make, LabelSupply.mem_take, Combination.handedOut_make]
  nodup := by
    have hnodup := @LabelSupply.nodup_take step.before step.combination.stateCount
    rw [← Combination.copied_append_entries] at hnodup
    exact hnodup.of_append_left
  copied q hq := Combination.hasState_make_iff.2 (List.mem_append_left _ hq)

end Step

/-- Chooses the next combination by the results so far, which may be operands of it. -/
abbrev Choice := List Automaton → Combination

/-- Carries out combinations one after the other with one supply. -/
def carryOut (supply : LabelSupply) (results : List Automaton) : List Choice → List Step
  | [] => []
  | choice :: choices =>
    let step : Step := ⟨choice results, supply⟩
    step :: carryOut step.behind (results ++ [step.result]) choices

variable {supply : LabelSupply} {results : List Automaton} {choices : List Choice} {step : Step}

/-- What is made from now on is made with labels that are still there. -/
lemma le_before_of_mem_carryOut (h : step ∈ carryOut supply results choices) :
    supply.handedOut ≤ step.before.handedOut := by
  induction choices generalizing supply results with
  | nil => cases h
  | cons choice choices ih =>
      rcases List.mem_cons.1 h with rfl | hlater
      · exact le_rfl
      · have htaken := (Step.mk (choice results) supply).ownLabels.taken
        calc supply.handedOut
            ≤ supply.handedOut + (choice results).stateCount := Nat.le_add_right _ _
          _ = (Step.mk (choice results) supply).behind.handedOut := htaken.symm
          _ ≤ step.before.handedOut := ih hlater

/-- A step has no label in common with one that gets what it leaves of the supply. -/
lemma Step.hasState_eq_false_of_le {earlier later : Step} {q : Label}
    (h : earlier.behind.handedOut ≤ later.before.handedOut) (hq : earlier.result.hasState q = true) :
    later.result.hasState q = false := by
  rw [Bool.eq_false_iff]
  intro hlater
  obtain ⟨m, -, hm, rfl⟩ := (earlier.ownLabels.hasState_iff q).1 hq
  obtain ⟨n, hn, -, hlabel⟩ := (later.ownLabels.hasState_iff _).1 hlater
  have hmn := LabelSupply.label_injective hlabel
  omega

lemma pairwise_carryOut :
    (carryOut supply results choices).Pairwise fun earlier later =>
      ∀ q, earlier.result.hasState q = true → later.result.hasState q = false := by
  induction choices generalizing supply results with
  | nil => exact List.Pairwise.nil
  | cons choice choices ih =>
      refine List.Pairwise.cons (fun later hlater q hq => ?_) ih
      exact Step.hasState_eq_false_of_le (le_before_of_mem_carryOut hlater) hq

/-- **Each combination has labels of its own, as many as it has states, and no two combinations that
are made with one supply have a label in common.** -/
theorem labels_carryOut (supply : LabelSupply) (choices : List Choice) :
    (∀ step ∈ carryOut supply [] choices, step.OwnLabels) ∧
      (carryOut supply [] choices).Pairwise fun earlier later =>
        ∀ q, earlier.result.hasState q = true → later.result.hasState q = false :=
  ⟨fun step _ => step.ownLabels, pairwise_carryOut⟩

end FiniteAutomata
