import FiniteAutomata.Automaton.Run
import FiniteAutomata.Proofs.Extensionality
import Mathlib.Logic.Relation
import Mathlib.Tactic.Common

/-!
# What a closure holds

The closure of a set of states is computed round by round, and each round looks only at the states
that were new in the last one.  It is bounded by the number of edges, so there is something to show:
that the rounds suffice.  Every round but the last finds the target of an edge that was not reached
before, hence the edges whose targets are still missing become fewer with each round.

* **`mem_closure`** — the closure holds exactly the states that edges on `epsilon` lead to.
* `closure_induction` — what edges on `epsilon` hand on holds in the closure.
* `closure_eq_of_closed` — a set that no such edge leaves is its own closure.
-/

namespace FiniteAutomata.Automaton

open Relation

variable {A : Automaton} {S T : StateSet} {q r t : Label}

/-- An edge on `epsilon` leads from the first state to the second. -/
def EpsilonStep (A : Automaton) (q t : Label) : Prop := ⟨q, epsilon, t⟩ ∈ A.edges

/-- The edges whose targets are still missing in a set. -/
def missing (A : Automaton) (S : StateSet) : List Edge :=
  A.edges.toList.filter fun e => !S.contains e.target

/-! ## One round -/

/-- The states that a round finds. -/
def fresh (A : Automaton) (reached new : StateSet) : StateSet :=
  (A.step new epsilon).filter fun q => !reached.contains q

lemma mem_fresh {reached new : StateSet} :
    t ∈ A.fresh reached new ↔ (∃ q ∈ new, A.EpsilonStep q t) ∧ t ∉ reached := by
  rw [fresh, SortedSet.mem_filter, mem_step, Bool.not_eq_true', SortedSet.not_contains_iff]
  rfl

lemma spread_succ (rounds : Nat) (reached new : StateSet) :
    A.spread (rounds + 1) reached new =
      if (A.fresh reached new).isEmpty then reached
      else A.spread rounds (reached ∪ A.fresh reached new) (A.fresh reached new) := rfl

/-- What is missing in a union is missing in the one set, and not in the other. -/
lemma missing_union :
    A.missing (S ∪ T) = (A.missing S).filter fun e => !T.contains e.target := by
  simp only [missing, List.filter_filter]
  refine List.filter_congr fun e _ => ?_
  rw [Bool.eq_iff_iff]
  simp only [Bool.not_eq_true', Bool.and_eq_true, SortedSet.not_contains_iff, SortedSet.mem_union,
    not_or]
  exact and_comm

/-- Each round that finds a state leaves fewer targets missing. -/
lemma length_missing_lt {reached new : StateSet} (h : ¬ (A.fresh reached new).isEmpty = true) :
    (A.missing (reached ∪ A.fresh reached new)).length < (A.missing reached).length := by
  rw [SortedSet.isEmpty_iff] at h
  push Not at h
  obtain ⟨t, ht⟩ := h
  obtain ⟨⟨q, -, he⟩, hr⟩ := mem_fresh.1 ht
  rw [missing_union]
  refine List.length_filter_lt_length_iff_exists.2 ⟨⟨q, epsilon, t⟩, ?_, ?_⟩
  · simpa [missing] using ⟨he, hr⟩
  · simpa using ht

/-! ## All rounds -/

lemma subset_spread : ∀ (rounds : Nat) (reached new : StateSet),
    ∀ q ∈ reached, q ∈ A.spread rounds reached new
  | 0, _, _, _, hq => hq
  | rounds + 1, reached, new, q, hq => by
      rw [spread_succ]
      split
      · exact hq
      · exact subset_spread rounds _ _ q (SortedSet.mem_union.2 (.inl hq))

/-- Whatever the rounds find is reached from the set that they began with. -/
lemma exists_of_mem_spread : ∀ (rounds : Nat) (reached new : StateSet), (∀ q ∈ new, q ∈ reached) →
    ∀ t ∈ A.spread rounds reached new, ∃ q ∈ reached, ReflTransGen A.EpsilonStep q t
  | 0, _, _, _, t, ht => ⟨t, ht, .refl⟩
  | rounds + 1, reached, new, hnew, t, ht => by
      rw [spread_succ] at ht
      split at ht
      · exact ⟨t, ht, .refl⟩
      · obtain ⟨q, hq, path⟩ := exists_of_mem_spread rounds _ _
          (fun q hq => SortedSet.mem_union.2 (.inr hq)) t ht
        rcases SortedSet.mem_union.1 hq with hq | hq
        · exact ⟨q, hq, path⟩
        · obtain ⟨⟨p, hp, edge⟩, -⟩ := mem_fresh.1 hq
          exact ⟨p, hnew p hp, .head edge path⟩

/-- With enough rounds no edge on `epsilon` leaves the result, if at the beginning such edges only
left the states that the first round looks at. -/
lemma spread_closed : ∀ (rounds : Nat) (reached new : StateSet),
    (A.missing reached).length ≤ rounds →
    (∀ q ∈ reached, q ∈ new ∨ ∀ t, A.EpsilonStep q t → t ∈ reached) →
    ∀ q ∈ A.spread rounds reached new, ∀ t, A.EpsilonStep q t → t ∈ A.spread rounds reached new
  | 0, reached, new, hcount, _, q, _, t, edge => by
      by_contra ht
      have hmem : (⟨q, epsilon, t⟩ : Edge) ∈ A.missing reached := by
        simpa [missing] using ⟨edge, ht⟩
      exact absurd (List.length_pos_of_mem hmem) (by omega)
  | rounds + 1, reached, new, hcount, hnew, q, hq, t, edge => by
      rw [spread_succ] at hq ⊢
      split at hq
      · next hempty =>
        rw [if_pos hempty]
        rcases hnew q hq with hq | hq
        · by_contra ht
          exact SortedSet.isEmpty_iff.1 hempty t (mem_fresh.2 ⟨⟨q, hq, edge⟩, ht⟩)
        · exact hq t edge
      · next hfound =>
        rw [if_neg hfound]
        refine spread_closed rounds _ _ ?_ ?_ q hq t edge
        · have := length_missing_lt hfound
          omega
        · intro p hp
          rcases SortedSet.mem_union.1 hp with hp | hp
          · by_cases hpnew : p ∈ new
            · refine .inr fun r hr => ?_
              by_cases hrr : r ∈ reached
              · exact SortedSet.mem_union.2 (.inl hrr)
              · exact SortedSet.mem_union.2 (.inr (mem_fresh.2 ⟨⟨p, hpnew, hr⟩, hrr⟩))
            · refine .inr fun r hr => SortedSet.mem_union.2 (.inl ?_)
              exact (hnew p hp).resolve_left hpnew r hr
          · exact .inl hp

/-! ## The closure -/

lemma subset_closure (hq : q ∈ S) : q ∈ A.closure S := subset_spread _ _ _ q hq

/-- No edge on `epsilon` leaves a closure. -/
lemma closure_closed (hq : q ∈ A.closure S) (edge : A.EpsilonStep q t) : t ∈ A.closure S := by
  refine spread_closed _ _ _ ?_ (fun p hp => .inl hp) q hq t edge
  exact List.length_filter_le _ _

/-- **The closure holds exactly the states that edges on `epsilon` lead to.** -/
theorem mem_closure : t ∈ A.closure S ↔ ∃ q ∈ S, ReflTransGen A.EpsilonStep q t := by
  constructor
  · exact exists_of_mem_spread _ _ _ (fun _ h => h) t
  · rintro ⟨q, hq, path⟩
    induction path with
    | refl => exact subset_closure hq
    | tail _ edge ih => exact closure_closed ih edge

/-- What holds in `S`, and is handed on along edges on `epsilon`, holds in the closure. -/
lemma closure_induction {P : Label → Prop} (base : ∀ q ∈ S, P q)
    (step : ∀ q t, P q → A.EpsilonStep q t → P t) (ht : t ∈ A.closure S) : P t := by
  obtain ⟨q, hq, path⟩ := mem_closure.1 ht
  induction path with
  | refl => exact base q hq
  | tail path edge ih => exact step _ _ (ih (mem_closure.2 ⟨q, hq, path⟩)) edge

/-- A set that no edge on `epsilon` leaves is its own closure. -/
lemma closure_eq_of_closed (h : ∀ q ∈ S, ∀ t, A.EpsilonStep q t → t ∈ S) : A.closure S = S := by
  refine SortedSet.ext fun t => ⟨fun ht => ?_, subset_closure⟩
  exact closure_induction (fun _ hq => hq) (fun q t hq edge => h q hq t edge) ht

lemma closure_closure : A.closure (A.closure S) = A.closure S :=
  closure_eq_of_closed fun _ hq _ edge => closure_closed hq edge

end FiniteAutomata.Automaton
