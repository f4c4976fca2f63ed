import FiniteAutomata.Proofs.Automaton.Reachable
import Mathlib.Order.Bounds.Basic

/-!
# The deterministic automaton, set by set

The textbook describes the deterministic automaton by a family of sets: the closure of the initial
states is in it, and so is what any member of it moves to, the empty set apart.  Here the automaton is
compared with that description, in which nothing is said of a worklist, of the order in which sets are
found, or of how a name is searched for.  What is left to the names is that they tell the sets apart.

* `ClosedUnderMoves`, **`isLeast_discovered`** — the family; the exploration finds its sets.
* `StandsFor` — how an automaton stands for a family of sets under names.
* `standsFor_determinize` — the deterministic automaton does.
* **`determinize_standsFor_least_family`** — all of it for the least family, and that the result is
  deterministic, has one initial state, and reaches every state from there.
-/

namespace FiniteAutomata.Automaton

variable {A : Automaton} {F : Set StateSet} {S T : StateSet} {q : Label} {s : Symbol} {e : Edge}

/-! ## The family of sets -/

/-- The family holds the closure of the initial states, and with a set also the closure of what the
set leads to on a letter, if that is not empty. -/
structure ClosedUnderMoves (A : Automaton) (F : Set StateSet) : Prop where
  start : A.closure A.initial ∈ F
  move : ∀ S ∈ F, ∀ s ∈ A.alphabet, s ≠ epsilon → (∃ q, q ∈ A.closure (A.step S s)) →
    A.closure (A.step S s) ∈ F

lemma mem_successors_iff :
    (s, T) ∈ A.successors S ↔
      s ∈ A.alphabet ∧ s ≠ epsilon ∧ T = A.closure (A.step S s) ∧ ∃ q, q ∈ T := by
  rw [mem_successors, mem_letters, and_assoc]
  rfl

/-- **The sets that are found are the least such family.** -/
theorem isLeast_discovered (A : Automaton) :
    IsLeast {F | A.ClosedUnderMoves F} {S | A.Discovered S} := by
  refine ⟨⟨.start, fun S hS s hs hne hsome => ?_⟩, fun F hF S hS => ?_⟩
  · exact .move hS (mem_successors_iff.2 ⟨hs, hne, rfl, hsome⟩)
  · induction hS with
    | start => exact hF.start
    | move _ hmove ih =>
        obtain ⟨hs, hne, rfl, hsome⟩ := mem_successors_iff.1 hmove
        exact hF.move _ ih _ hs hne hsome

/-! ## Automata that stand for sets -/

/-- `D` has a state for every set of the family, under the name of the set, and an edge for every move
that does not lead to the empty set; it has nothing else. -/
structure StandsFor (D A : Automaton) (F : Set StateSet) (name : StateSet → Label) : Prop where
  /-- Different sets have different names. -/
  injective : Set.InjOn name F
  /-- A name is the joined label of the set, perhaps with primes behind it. -/
  primed : ∀ S ∈ F, ∃ n, name S = joinLabels S ++ primes n
  states : ∀ q, D.hasState q = true ↔ ∃ S ∈ F, q = name S
  initial : ∀ S ∈ F, name S ∈ D.initial ↔ S = A.closure A.initial
  final : ∀ S ∈ F, name S ∈ D.final ↔ ∃ q ∈ S, q ∈ A.final
  edges : ∀ e, e ∈ D.edges ↔ ∃ S ∈ F, ∃ s ∈ A.alphabet, s ≠ epsilon ∧
    (∃ q, q ∈ A.closure (A.step S s)) ∧ e = ⟨name S, s, name (A.closure (A.step S s))⟩
  alphabet : ∀ s, s ∈ D.alphabet ↔ s ∈ A.alphabet ∧ s ≠ epsilon

/-- The deterministic automaton stands for the sets that are found. -/
theorem standsFor_determinize (A : Automaton) :
    A.determinize.StandsFor A {S | A.Discovered S} A.setLabel where
  injective _ hS _ hT h := setLabel_injective hS hT h
  primed _ hS := exists_setLabel_eq hS
  states _ := hasState_determinize
  initial _ hS := setLabel_mem_initial_iff hS
  final _ hS := setLabel_mem_final_iff hS
  edges e := by
    rw [mem_edges_determinize]
    constructor
    · rintro ⟨S, s, T, hS, hmove, he⟩
      obtain ⟨hs, hne, rfl, hsome⟩ := mem_successors_iff.1 hmove
      exact ⟨S, hS, s, hs, hne, hsome, he⟩
    · rintro ⟨S, hS, s, hs, hne, hsome, he⟩
      exact ⟨S, s, _, hS, mem_successors_iff.2 ⟨hs, hne, rfl, hsome⟩, he⟩
  alphabet s := by rw [alphabet_determinize, mem_letters]

/-- **The deterministic automaton stands for the least family of sets**, and so it is deterministic,
has one initial state, and every state of it can be reached from there. -/
theorem determinize_standsFor_least_family (A : Automaton) :
    (∃ (F : Set StateSet) (name : StateSet → Label),
      IsLeast {F | A.ClosedUnderMoves F} F ∧ A.determinize.StandsFor A F name) ∧
    A.determinize.isDeterministic = true ∧
    ∃ i, (∀ q, q ∈ A.determinize.initial ↔ q = i) ∧
      ∀ q, A.determinize.hasState q = true → A.determinize.Reachable i q := by
  refine ⟨⟨_, _, isLeast_discovered A, standsFor_determinize A⟩, isDeterministic_determinize A, ?_⟩
  refine ⟨A.setLabel A.start, fun _ => mem_initial_determinize, fun q hq => ?_⟩
  obtain ⟨S, hS, rfl⟩ := hasState_determinize.1 hq
  exact reachable_setLabel hS

end FiniteAutomata.Automaton
