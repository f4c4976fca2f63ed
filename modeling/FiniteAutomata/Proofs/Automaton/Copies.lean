import FiniteAutomata.Automaton.Combine
import FiniteAutomata.Proofs.Automaton.Runs
import FiniteAutomata.Proofs.Automaton.Changes
import Std.Data.String.ToNat

/-!
# Copies of automata

A copy of an automaton gets labels from the supply.  Whatever the labels of the original look like,
the labels of the copy are distinct and belong to no state that is there already, as long as the
supply is ahead of all of them (`LabelSupply.FreshFor`).  So nothing is merged, no edge of the copy
is rejected, and nothing old is touched.

* `copyLabel_injective`, `copyLabel_ne` — states of one copy, and of two copies, are kept apart.
* **`get?_copyInto`, `mem_edges_copyInto`** — an automaton with a copy inside consists of what it
  was and of the renamed original.
-/

namespace FiniteAutomata

/-! ## Labels of the supply -/

lemma LabelSupply.label_injective : Function.Injective LabelSupply.label := by
  intro m n h
  have hlist : ('q' :: (toString m).toList) = 'q' :: (toString n).toList := by
    simpa [label] using congrArg String.toList h
  have hrepr : Nat.repr m = Nat.repr n := String.toList_inj.1 (List.cons.inj hlist).2
  exact Nat.repr_injective hrepr

/-- No state has a label that the supply can still hand out. -/
def LabelSupply.FreshFor (supply : LabelSupply) (A : Automaton) : Prop :=
  ∀ n, supply.handedOut ≤ n → A.states.get? (label n) = none

namespace Automaton

variable {A R : Automaton} {supply : LabelSupply} {cleared f : Flags} {q r t x : Label} {s : Symbol}
  {e : Edge} {w : List Char}

lemma freshFor_blank (kind : Kind) (supply : LabelSupply) : supply.FreshFor (blank kind) := by
  intro n _
  cases kind <;> rfl

/-! ## Labels of copies -/

lemma length_keys_toList : A.states.keys.toList.length = A.states.size := List.length_map _

/-- The copy of a state has one of the next labels of the supply. -/
lemma exists_copyLabel_eq (supply : LabelSupply) (hq : A.hasState q = true) :
    ∃ n, supply.handedOut ≤ n ∧ n < supply.handedOut + A.states.size ∧
      A.copyLabel supply q = LabelSupply.label n := by
  have hlt := List.idxOf_lt_length_of_mem (mem_keys_toList.2 hq)
  rw [length_keys_toList] at hlt
  exact ⟨_, by omega, by omega, rfl⟩

lemma copyLabel_injective (hq : A.hasState q = true)
    (h : A.copyLabel supply q = A.copyLabel supply r) : q = r := by
  have hidx := LabelSupply.label_injective h
  exact (List.idxOf_inj (mem_keys_toList.2 hq)).1 (Nat.add_left_cancel hidx)

lemma copyLabel_ne_label {n : Nat} (hn : supply.handedOut + A.states.size ≤ n)
    (hq : A.hasState q = true) : A.copyLabel supply q ≠ LabelSupply.label n := by
  obtain ⟨m, -, hm, hlabel⟩ := exists_copyLabel_eq supply hq
  rw [hlabel]
  intro h
  have hmn := LabelSupply.label_injective h
  omega

/-- Copies that are made one after the other have no label in common. -/
lemma copyLabel_ne {B : Automaton} {supply' : LabelSupply}
    (hle : supply.handedOut + A.states.size ≤ supply'.handedOut)
    (hq : A.hasState q = true) (hr : B.hasState r = true) :
    A.copyLabel supply q ≠ B.copyLabel supply' r := by
  obtain ⟨n, hn, -, hlabel⟩ := exists_copyLabel_eq supply' hr
  rw [hlabel]
  exact copyLabel_ne_label (by omega) hq

/-- An edge that leaves the copy of a state and is the copy of an edge is the copy of an edge that
leaves the state. -/
lemma exists_edge_of_rename (hq : A.hasState q = true) (he : e ∈ A.edges)
    (h : ⟨A.copyLabel supply q, s, t⟩ = e.rename (A.copyLabel supply)) :
    ∃ p, ⟨q, s, p⟩ ∈ A.edges ∧ t = A.copyLabel supply p := by
  obtain ⟨hsource, rfl, rfl⟩ := Edge.mk.inj h
  obtain rfl := copyLabel_injective hq hsource
  exact ⟨e.target, he, rfl⟩

/-! ## An automaton with a copy inside -/

/-- The states of a copy, as they are added. -/
def copyStates (A : Automaton) (cleared : Flags) (supply : LabelSupply) : List (Label × Flags) :=
  A.states.toList.map fun p => (A.copyLabel supply p.1, p.2.without cleared)

lemma automaton_copyInto :
    (A.copyInto R cleared supply).automaton =
      ((R.addStates (A.copyStates cleared supply)).addSymbols A.alphabet.toList).addEdges
        (A.edges.toList.map (·.rename (A.copyLabel supply))) := rfl

lemma mem_copyStates :
    (x, f) ∈ A.copyStates cleared supply ↔
      ∃ q g, A.states.get? q = some g ∧ x = A.copyLabel supply q ∧ f = g.without cleared := by
  rw [copyStates, List.mem_map]
  constructor
  · rintro ⟨⟨q, g⟩, hmem, h⟩
    obtain ⟨rfl, rfl⟩ := Prod.mk.inj h
    exact ⟨q, g, mem_states_toList.1 hmem, rfl, rfl⟩
  · rintro ⟨q, g, hq, rfl, rfl⟩
    exact ⟨(q, g), mem_states_toList.2 hq, rfl⟩

lemma nodup_map_fst_copyStates : ((A.copyStates cleared supply).map (·.1)).Nodup := by
  rw [copyStates]
  exact nodup_map_fst_states (g := (·.without cleared)) fun _ hq _ _ h => copyLabel_injective hq h

/-- **The states are those that were there and the copies.** -/
theorem get?_copyInto (fresh : supply.FreshFor R) :
    (A.copyInto R cleared supply).automaton.states.get? x = some f ↔
      R.states.get? x = some f ∨
        ∃ q g, A.states.get? q = some g ∧ x = A.copyLabel supply q ∧ f = g.without cleared := by
  rw [automaton_copyInto, states_addEdges, states_addSymbols, get?_addStates, Option.or_eq_some_iff,
    lookup_eq_some_iff_mem nodup_map_fst_copyStates, mem_copyStates]
  refine or_congr_right ⟨And.right, fun h => ⟨?_, h⟩⟩
  obtain ⟨q, g, hq, rfl, -⟩ := h
  obtain ⟨n, hn, -, hlabel⟩ := exists_copyLabel_eq supply (hasState_of_get? hq)
  rw [hlabel]
  exact fresh n hn

lemma mem_alphabet_copyInto :
    s ∈ (A.copyInto R cleared supply).automaton.alphabet ↔ s ∈ A.alphabet ∨ s ∈ R.alphabet := by
  rw [automaton_copyInto, alphabet_addEdges, mem_addSymbols, alphabet_addStates]
  rfl

lemma hasState_copyInto (fresh : supply.FreshFor R) :
    (A.copyInto R cleared supply).automaton.hasState x = true ↔
      R.hasState x = true ∨ ∃ q, A.hasState q = true ∧ x = A.copyLabel supply q := by
  simp only [hasState_iff, get?_copyInto fresh]
  constructor
  · rintro ⟨f, hf | ⟨q, g, hq, hx, -⟩⟩
    · exact .inl ⟨f, hf⟩
    · exact .inr ⟨q, ⟨g, hq⟩, hx⟩
  · rintro (⟨f, hf⟩ | ⟨q, ⟨g, hq⟩, hx⟩)
    · exact ⟨f, .inl hf⟩
    · exact ⟨_, .inr ⟨q, g, hq, hx, rfl⟩⟩

/-- **The edges are those that were there and the renamed ones.** -/
theorem mem_edges_copyInto (fresh : supply.FreshFor R) :
    e ∈ (A.copyInto R cleared supply).automaton.edges ↔
      (∃ d ∈ A.edges, e = d.rename (A.copyLabel supply)) ∨ e ∈ R.edges := by
  have hknown : ∀ d ∈ A.edges, (A.copyInto R cleared supply).automaton.knows
      (d.rename (A.copyLabel supply)) = true := by
    intro d hd
    obtain ⟨⟨hsource, hsymbol⟩, htarget⟩ := A.known d hd
    refine knows_iff.2 ⟨?_, ?_, ?_⟩
    · exact (hasState_copyInto fresh).2 (.inr ⟨_, hsource, rfl⟩)
    · exact mem_alphabet_copyInto.2 (.inl (SortedSet.contains_iff_mem.1 hsymbol))
    · exact (hasState_copyInto fresh).2 (.inr ⟨_, htarget, rfl⟩)
  rw [automaton_copyInto, mem_addEdges, edges_addSymbols, edges_addStates, List.mem_map]
  refine or_congr_left ⟨?_, ?_⟩
  · rintro ⟨⟨d, hd, rfl⟩, -⟩
    exact ⟨d, hd, rfl⟩
  · rintro ⟨d, hd, rfl⟩
    refine ⟨⟨d, hd, rfl⟩, ?_⟩
    rw [← hknown d hd, automaton_copyInto]
    simp [knows, hasState]

lemma handedOut_copyInto :
    (A.copyInto R cleared supply).supply.handedOut = supply.handedOut + A.states.size := rfl

/-- The supply stays ahead of all labels in use. -/
lemma freshFor_copyInto (fresh : supply.FreshFor R) :
    (A.copyInto R cleared supply).supply.FreshFor (A.copyInto R cleared supply).automaton := by
  intro n hn
  rw [handedOut_copyInto] at hn
  refine Option.eq_none_iff_forall_ne_some.2 fun f hf => ?_
  rcases (get?_copyInto fresh).1 hf with hf | ⟨q, g, hq, hlabel, -⟩
  · rw [fresh n (by omega)] at hf
    cases hf
  · obtain ⟨m, -, hm, hcopy⟩ := exists_copyLabel_eq supply (hasState_of_get? hq)
    have := LabelSupply.label_injective (hlabel.trans hcopy)
    omega

end Automaton

end FiniteAutomata
