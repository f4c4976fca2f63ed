import FiniteAutomata.Automaton.Basic
import Mathlib.Data.List.Sort

/-!
# Values that are told by their members

Sets and maps are kept in increasing order, so there is one way to keep the same members, in whatever order
they were added; and an automaton is made of such sets and maps.

* `eq_of_increasing` — lists in increasing order with the same members.
* **`SortedSet.ext`**, **`SortedMap.ext`**, **`Automaton.ext_of_mem`** — what determines a set, a map and an
  automaton.
-/

namespace FiniteAutomata

open Std

/-- There is one list in increasing order with these members. -/
lemma eq_of_increasing {α β : Type} [Ord β] [TransOrd β] (key : α → β) {l m : List α}
    (hl : l.Pairwise fun a b => compare (key a) (key b) = .lt)
    (hm : m.Pairwise fun a b => compare (key a) (key b) = .lt) (h : ∀ a, a ∈ l ↔ a ∈ m) : l = m := by
  have hirrefl : Std.Irrefl fun a b => compare (key a) (key b) = .lt :=
    ⟨fun a => by simp [ReflCmp.compare_self]⟩
  have hantisymm : Std.Antisymm fun a b => compare (key a) (key b) = .lt :=
    ⟨fun a b hab hba => absurd (TransCmp.lt_trans hab hba) (hirrefl.irrefl a)⟩
  exact hl.eq_of_mem_iff hm h

/-- **Sets with the same members are equal.** -/
theorem SortedSet.ext {α : Type} [Ord α] [TransOrd α] {s t : SortedSet α} (h : ∀ a, a ∈ s ↔ a ∈ t) :
    s = t := by
  obtain ⟨l, hl⟩ := s
  obtain ⟨m, hm⟩ := t
  obtain rfl : l = m := eq_of_increasing id hl hm h
  rfl

/-- **Maps that answer every look-up alike are equal.** -/
theorem SortedMap.ext {κ ν : Type} [Ord κ] [TransOrd κ] [LawfulEqOrd κ] {m n : SortedMap κ ν}
    (h : ∀ k, m.get? k = n.get? k) : m = n := by
  have hmem : ∀ e, e ∈ m.toList ↔ e ∈ n.toList := fun e => by
    rw [mem_toList_iff (k := e.1) (v := e.2), mem_toList_iff, h]
  obtain ⟨l, hl⟩ := m
  obtain ⟨l', hl'⟩ := n
  obtain rfl : l = l' := eq_of_increasing Prod.fst hl hl' hmem
  rfl

/-- **An automaton is determined by its alphabet, the marks of its states and its edges.** -/
theorem Automaton.ext_of_mem {A B : Automaton} (symbols : ∀ s, s ∈ A.alphabet ↔ s ∈ B.alphabet)
    (states : ∀ l, A.states.get? l = B.states.get? l) (edges : ∀ e, e ∈ A.edges ↔ e ∈ B.edges) :
    A = B := by
  obtain ⟨s, t, e, _⟩ := A
  obtain ⟨s', t', e', _⟩ := B
  obtain rfl : s = s' := SortedSet.ext symbols
  obtain rfl : t = t' := SortedMap.ext states
  obtain rfl : e = e' := SortedSet.ext edges
  rfl

end FiniteAutomata
