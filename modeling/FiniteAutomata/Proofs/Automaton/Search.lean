import FiniteAutomata.Proofs.Automaton.Closure
import FiniteAutomata.Proofs.Automaton.Changes
import Mathlib.Data.List.Perm.Subperm
import Mathlib.Order.Bounds.Basic

/-!
# Closures as least sets, and how a search finds them

The closure of a set is the least set around it that no edge on `epsilon` leaves.  That is said without
any computation, and the laws of a closure follow from it.  It is computed in rounds, but rounds are only
one way to go about it: a search may also take the states that wait one at a time, and in any order.
Every search comes to an end, because each state that it finds uses up an edge whose target was missing,
and all searches from one set end with the same states.

* `ClosedUnderSilence`, **`isLeast_closure`** — the closure as a least set.
* `closure_subset_closure`, `closure_union`, `mem_closure_of_not_hasState` — its laws.
* `Search`, `Search.Step` — searches, one state at a time.
* `Search.Valid.step`, **`Search.Valid.reached_eq`** — what a step keeps, and what it leads to.
* `Search.Step.effort_lt`, `Search.wellFounded_step` — no search goes on for ever.
* **`closure_isLeast_and_found_by_search`** — all of it for every set, states and other labels alike.
-/

namespace FiniteAutomata.Automaton

open Relation

variable {A : Automaton} {S T : StateSet} {q r t : Label}

/-! ## The least set -/

/-- No edge on `epsilon` leaves the set. -/
def ClosedUnderSilence (A : Automaton) (U : Set Label) : Prop :=
  ∀ q ∈ U, ∀ t, A.EpsilonStep q t → t ∈ U

/-- **The closure is the least set around `S` that no edge on `epsilon` leaves.** -/
theorem isLeast_closure (A : Automaton) (S : StateSet) :
    IsLeast {U : Set Label | (∀ q ∈ S, q ∈ U) ∧ A.ClosedUnderSilence U} {t | t ∈ A.closure S} := by
  refine ⟨⟨fun q hq => subset_closure hq, fun q hq t edge => closure_closed hq edge⟩, ?_⟩
  rintro U ⟨hsubset, hclosed⟩ t ht
  exact closure_induction hsubset (fun q t hq edge => hclosed q hq t edge) ht

lemma closure_subset_closure (h : ∀ q ∈ S, q ∈ T) : ∀ t ∈ A.closure S, t ∈ A.closure T := by
  intro t ht
  obtain ⟨q, hq, path⟩ := mem_closure.1 ht
  exact mem_closure.2 ⟨q, h q hq, path⟩

lemma closure_union : A.closure (S ∪ T) = A.closure S ∪ A.closure T := by
  refine SortedSet.ext fun t => ?_
  simp only [mem_closure, SortedSet.mem_union, or_and_right, exists_or]

/-- No edge ends at a label that no state has, so such a label is only in the closures of the sets that
it is in. -/
lemma mem_closure_of_not_hasState (hq : A.hasState q = false) : q ∈ A.closure S ↔ q ∈ S := by
  refine ⟨fun h => ?_, subset_closure⟩
  obtain ⟨r, hr, path⟩ := mem_closure.1 h
  cases path with
  | refl => exact hr
  | tail _ edge =>
      have hstate : A.hasState q = true := (A.known _ edge).2
      exact absurd hstate (by simp [hq])

/-! ## Searches -/

/-- A search for the states that edges on `epsilon` lead to. -/
structure Search where
  /-- The labels that have been found. -/
  reached : StateSet
  /-- Those among them that have not been looked at. -/
  waiting : List Label

namespace Search

variable {x y : Search}

/-- The states that `q` leads to and that have not been found yet. -/
def unseen (A : Automaton) (x : Search) (q : Label) : StateSet :=
  (A.targets q epsilon).filter fun t => !x.reached.contains t

/-- One of the labels that wait is looked at, no matter which.  What it leads to for the first time has
been found now, and waits. -/
inductive Step (A : Automaton) (x : Search) : Search → Prop
  | look (q : Label) (waits : q ∈ x.waiting) :
      Step A x ⟨x.reached ∪ x.unseen A q, x.waiting.erase q ++ (x.unseen A q).toList⟩

lemma mem_unseen : t ∈ x.unseen A q ↔ A.EpsilonStep q t ∧ t ∉ x.reached := by
  rw [unseen, SortedSet.mem_filter, mem_targets, Bool.not_eq_true', SortedSet.not_contains_iff]
  rfl

/-- A search goes on as long as something waits. -/
lemma waiting_eq_nil_iff : x.waiting = [] ↔ ∀ y, ¬ Step A x y := by
  constructor
  · rintro h _ ⟨q, waits⟩
    rw [h] at waits
    exact absurd waits List.not_mem_nil
  · intro h
    exact List.eq_nil_iff_forall_not_mem.2 fun q waits => h _ (.look q waits)

/-! ### What a step keeps -/

/-- How a search that began with `S` can look: it has found nothing but what is in the closure, and what
it has found and not kept waiting leads to nothing that is missing. -/
structure Valid (A : Automaton) (S : StateSet) (x : Search) : Prop where
  begun : ∀ q ∈ S, q ∈ x.reached
  sound : ∀ t ∈ x.reached, t ∈ A.closure S
  found : ∀ q ∈ x.waiting, q ∈ x.reached
  done : ∀ q ∈ x.reached, q ∈ x.waiting ∨ ∀ t, A.EpsilonStep q t → t ∈ x.reached

lemma valid_start {waiting : List Label} (h : ∀ q, q ∈ waiting ↔ q ∈ S) :
    Valid A S ⟨S, waiting⟩ where
  begun _ hq := hq
  sound _ ht := subset_closure ht
  found q hq := (h q).1 hq
  done q hq := .inl ((h q).2 hq)

theorem Valid.step (valid : Valid A S x) (step : Step A x y) : Valid A S y := by
  obtain ⟨q, waits⟩ := step
  have hq := valid.found q waits
  refine ⟨fun p hp => ?_, fun t ht => ?_, fun p hp => ?_, fun p hp => ?_⟩
  · exact SortedSet.mem_union.2 (.inl (valid.begun p hp))
  · rcases SortedSet.mem_union.1 ht with ht | ht
    · exact valid.sound t ht
    · exact closure_closed (valid.sound q hq) (mem_unseen.1 ht).1
  · rcases List.mem_append.1 hp with hp | hp
    · exact SortedSet.mem_union.2 (.inl (valid.found p (List.mem_of_mem_erase hp)))
    · exact SortedSet.mem_union.2 (.inr hp)
  · rcases SortedSet.mem_union.1 hp with hp | hp
    · by_cases hpq : p = q
      · -- the label that was looked at: what it leads to was found before, or is found now
        subst hpq
        refine .inr fun t edge => SortedSet.mem_union.2 ?_
        by_cases ht : t ∈ x.reached
        · exact .inl ht
        · exact .inr (mem_unseen.2 ⟨edge, ht⟩)
      · rcases valid.done p hp with hwaits | hdone
        · exact .inl (List.mem_append_left _ ((List.mem_erase_of_ne hpq).2 hwaits))
        · exact .inr fun t edge => SortedSet.mem_union.2 (.inl (hdone t edge))
    · exact .inl (List.mem_append_right _ hp)

theorem Valid.steps (valid : Valid A S x) (steps : ReflTransGen (Step A) x y) : Valid A S y := by
  induction steps with
  | refl => exact valid
  | tail _ step ih => exact ih.step step

/-- **A search in which nothing waits has found the closure.** -/
theorem Valid.reached_eq (valid : Valid A S x) (h : x.waiting = []) : x.reached = A.closure S := by
  have hclosed : A.ClosedUnderSilence {t | t ∈ x.reached} := by
    intro q hq t edge
    have hdone := (valid.done q hq).resolve_left (by simp [h])
    exact hdone t edge
  refine SortedSet.ext fun t => ⟨valid.sound t, fun ht => ?_⟩
  exact (isLeast_closure A S).2 ⟨valid.begun, hclosed⟩ ht

/-! ### How long a search takes -/

/-- What is left to do: the labels that wait, and the edges that can still lead to something new. -/
def effort (A : Automaton) (x : Search) : Nat := x.waiting.length + (A.missing x.reached).length

/-- Each label that is found is the target of an edge that was missing one. -/
lemma length_unseen_add_length_missing_le :
    (x.unseen A q).toList.length + (A.missing (x.reached ∪ x.unseen A q)).length ≤
      (A.missing x.reached).length := by
  have hnodup : ((x.unseen A q).toList.map fun t => (⟨q, epsilon, t⟩ : Edge)).Nodup :=
    (SortedSet.nodup_toList _).map fun _ _ h => (Edge.mk.inj h).2.2
  have hsubset : (x.unseen A q).toList.map (fun t => (⟨q, epsilon, t⟩ : Edge)) ⊆
      (A.missing x.reached).filter fun e => (x.unseen A q).contains e.target := by
    intro e he
    obtain ⟨t, ht, rfl⟩ := List.mem_map.1 he
    obtain ⟨edge, hmissing⟩ := mem_unseen.1 ht
    have hmem : (⟨q, epsilon, t⟩ : Edge) ∈ A.missing x.reached := by
      simpa [missing] using ⟨edge, hmissing⟩
    exact List.mem_filter.2 ⟨hmem, SortedSet.contains_iff_mem.2 ht⟩
  have hle := (hnodup.subperm hsubset).length_le
  rw [List.length_map] at hle
  have hparts := (A.missing x.reached).length_eq_length_filter_add fun e =>
    (x.unseen A q).contains e.target
  rw [missing_union]
  omega

/-- **A step leaves less to do.** -/
theorem Step.effort_lt (step : Step A x y) : y.effort A < x.effort A := by
  obtain ⟨q, waits⟩ := step
  have hmissing := @length_unseen_add_length_missing_le A q x
  have hpos : 0 < x.waiting.length := List.length_pos_of_mem waits
  simp only [effort, List.length_append, List.length_erase_of_mem waits]
  omega

/-- There is no search without an end. -/
lemma wellFounded_step (A : Automaton) : WellFounded fun y x => Step A x y :=
  Subrelation.wf (fun step => step.effort_lt) (measure (effort A)).wf

/-- Whatever a search from `x` looks at next, it ends some time, and then it has found `U`. -/
def Finds (A : Automaton) (x : Search) (U : StateSet) : Prop :=
  Acc (fun z y => Step A y z) x ∧
    ∀ y, ReflTransGen (Step A) x y → (∀ z, ¬ Step A y z) → y.reached = U

lemma finds_closure {waiting : List Label} (h : ∀ q, q ∈ waiting ↔ q ∈ S) :
    Finds A ⟨S, waiting⟩ (A.closure S) := by
  refine ⟨(wellFounded_step A).apply _, fun y steps hend => ?_⟩
  exact ((valid_start h).steps steps).reached_eq (waiting_eq_nil_iff.2 hend)

end Search

/-- **A closure holds what edges on `epsilon` lead to, it is the least set that they do not leave, and
every search finds it.**  To close a set twice adds nothing, closures keep inclusions and unions, and a
label that no state has is in the closure of just the sets that it is in. -/
theorem closure_isLeast_and_found_by_search (A : Automaton) (S T : StateSet) :
    (∀ t, t ∈ A.closure S ↔ ∃ q ∈ S, ReflTransGen A.EpsilonStep q t) ∧
    IsLeast {U : Set Label | (∀ q ∈ S, q ∈ U) ∧ A.ClosedUnderSilence U} {t | t ∈ A.closure S} ∧
    A.closure (A.closure S) = A.closure S ∧
    ((∀ q ∈ S, q ∈ T) → ∀ t ∈ A.closure S, t ∈ A.closure T) ∧
    A.closure (S ∪ T) = A.closure S ∪ A.closure T ∧
    (∀ q, A.hasState q = false → (q ∈ A.closure S ↔ q ∈ S)) ∧
    ∀ waiting : List Label, (∀ q, q ∈ waiting ↔ q ∈ S) →
      Search.Finds A ⟨S, waiting⟩ (A.closure S) :=
  ⟨fun _ => mem_closure, isLeast_closure A S, closure_closure, closure_subset_closure, closure_union,
    fun _ => mem_closure_of_not_hasState, fun _ => Search.finds_closure⟩

/-- Edges on `epsilon` in a circle, and one that leaves it. -/
def silentCircle : Automaton :=
  build .nondeterministic [.state "p" .empty false, .state "q" .empty false, .state "r" .empty false,
    .edge ⟨"p", "", "q"⟩, .edge ⟨"q", "", "p"⟩, .edge ⟨"q", "", "r"⟩]

theorem closure_isLeast_and_found_by_search_circle :
    silentCircle.hasState "?" = false ∧
      silentCircle.closure (.ofList ["p", "?"]) = .ofList ["?", "p", "q", "r"] ∧
      ("?" ∈ silentCircle.closure (.ofList ["p", "?"]) ↔ "?" ∈ SortedSet.ofList ["p", "?"]) ∧
      (∀ t ∈ silentCircle.closure (.ofList ["p", "?"]),
        t ∈ silentCircle.closure (.ofList ["q", "p", "?"])) ∧
      Search.Finds silentCircle ⟨.ofList ["p", "?"], ["p", "?"]⟩
        (silentCircle.closure (.ofList ["p", "?"])) := by
  have hunknown : silentCircle.hasState "?" = false := by decide
  have hsubset : ∀ q ∈ SortedSet.ofList ["p", "?"], q ∈ SortedSet.ofList ["q", "p", "?"] := by
    simp
  obtain ⟨-, -, -, hmono, -, hlabel, hsearch⟩ :=
    closure_isLeast_and_found_by_search silentCircle (.ofList ["p", "?"]) (.ofList ["q", "p", "?"])
  exact ⟨hunknown, by decide, hlabel "?" hunknown, hmono hsubset,
    hsearch ["p", "?"] fun _ => SortedSet.mem_ofList.symm⟩

end FiniteAutomata.Automaton
