import FiniteAutomata.Proofs.Automaton.Supply
import FiniteAutomata.Proofs.ExpressionStore.Language
import FiniteAutomata.Proofs.Regex.Reading

/-!
# The size of an automaton

An entry that is used in several places is made once, but every use puts a copy of it into the result, so
the states of an automaton are counted along the tree and not along the table.  The tree need not be known
either: what contributes states are the characters of the text, and parentheses contribute none.

* `Regex.stateCount`, `Sound.size_eq` — the number of states, by recursion over the tree.
* `Regex.stateCount_eq` — the same number, told by the characters of the text.
* **`size_final_of_parse`** — from an accepted text to the states and the symbols of its automaton.
-/

namespace FiniteAutomata

/-! ## Counting along the tree -/

namespace Regex

variable {e : Regex}

/-- The number of states that an expression contributes. -/
def stateCount : Regex → Nat
  | symbol _ => 2
  | epsilon => 1
  | concat left right => left.stateCount + right.stateCount
  | union left right => left.stateCount + right.stateCount + 1
  | iterate operand => operand.stateCount + 1
  | group inner => inner.stateCount

lemma stateCount_plain (e : Regex) : e.plain.stateCount = e.stateCount := by
  induction e with
  | symbol c => rfl
  | epsilon => rfl
  | concat left right ihl ihr => rw [plain, stateCount, stateCount, ihl, ihr]
  | union left right ihl ihr => rw [plain, stateCount, stateCount, ihl, ihr]
  | iterate operand ih => rw [plain, stateCount, stateCount, ih]
  | group inner ih => rw [plain, stateCount, ih]

/-! ## Counting along the text -/

/-- **The states of an expression are counted along its text**: two for every symbol, and one for every
space, every choice and every repetition. -/
theorem stateCount_eq (he : e.WellFormed) :
    e.stateCount = 2 * e.chars.countP standsForItself + e.chars.count ' ' + e.chars.count '|' +
      e.chars.count '*' := by
  induction e with
  | symbol c =>
      have hstands : standsForItself c = true := by simp [standsForItself, he.1, he.2]
      have hother : ∀ d, standsForItself d = false → [c].count d = 0 := by
        intro d hd
        refine List.count_eq_zero.2 fun hmem => ?_
        rw [List.mem_singleton.1 hmem, hstands] at hd
        cases hd
      rw [chars, List.countP_singleton, hstands, hother ' ' rfl, hother '|' rfl, hother '*' rfl]
      rfl
  | epsilon => rfl
  | concat left right ihl ihr =>
      rw [stateCount, ihl he.1.1, ihr he.2.1]
      simp only [chars, List.countP_append, List.count_append]
      omega
  | union left right ihl ihr =>
      rw [stateCount, ihl he.1, ihr he.2.1]
      simp [chars, standsForItself, isReserved]
      omega
  | iterate operand ih =>
      rw [stateCount, ih he.1]
      simp [chars, standsForItself, isReserved]
      omega
  | group inner ih =>
      rw [stateCount, ih he]
      simp [chars, standsForItself, isReserved]

end Regex

/-! ## Counting what is made -/

lemma Automaton.size_ofSymbol {s : Symbol} (hs : s ≠ epsilon) : (ofSymbol s).states.size = 2 := by
  rw [ofSymbol, if_neg hs, states_addEdge]
  rfl

namespace ExpressionStore

variable {store : ExpressionStore} {trees : List Regex} {tree e : Regex} {k : Nat} {entry : Entry}

/-- **An entry has as many states as its tree says**, however often parts of it are shared. -/
theorem Sound.size_eq (hsound : store.Sound) (h : store.Mirrors trees)
    (htree : trees[k]? = some tree) (hentry : store.entries[k]? = some entry) :
    entry.automaton.states.size = tree.stateCount := by
  refine hsound.induction (P := fun tree A => A.states.size = tree.stateCount) h
    ?_ rfl ?_ ?_ ?_ htree hentry
  · intro c
    exact Automaton.size_ofSymbol String.singleton_ne_empty
  · intro left right A B supply hleft hright
    rw [Regex.stateCount, ← hleft, ← hright]
    exact Combination.size_make (c := .concat A B)
  · intro left right A B supply hleft hright
    rw [Regex.stateCount, ← hleft, ← hright]
    exact Combination.size_make (c := .union A B)
  · intro operand A supply hoperand
    rw [Regex.stateCount, ← hoperand]
    exact Combination.size_make (c := .iterate A)

/-- **The automaton of an accepted text** has two states for every character that stands for itself, and one
for every space, every choice and every repetition. Its symbols are `epsilon` and these characters. -/
theorem size_final_of_parse {text : String} (h : Regex.parse text = .ok e) :
    ∃ store A, ofRegex text = .ok store ∧ store.final? = some A ∧
      A.states.size = 2 * text.toList.countP Regex.standsForItself + text.toList.count ' ' +
        text.toList.count '|' + text.toList.count '*' ∧
      ∀ s, s ∈ A.alphabet ↔
        s = epsilon ∨ ∃ c ∈ text.toList, Regex.standsForItself c = true ∧ s = String.singleton c := by
  obtain ⟨he, hchars⟩ := Regex.parse_spec h
  obtain ⟨store, trees, k, entry, hstore, hfinal, hsound, hmirrors, htree, hentry⟩ := exists_ofRegex h
  refine ⟨store, entry.automaton, hstore, hfinal, ?_, fun s => ?_⟩
  · rw [hsound.size_eq hmirrors htree hentry, Regex.stateCount_plain, Regex.stateCount_eq he, hchars]
  · rw [hsound.mem_alphabet_iff hmirrors htree hentry, Regex.symbols_plain, Regex.symbols_eq_filter he,
      hchars]
    simp only [List.mem_map, List.mem_filter, and_assoc, eq_comm (a := s)]

/-- Both sides of the choice share the entry of `ab`, and each has a copy of its own. -/
theorem size_final_repeated :
    Regex.parse "(ab)|ab" = .ok repeated ∧
      ∃ store A, ofRegex "(ab)|ab" = .ok store ∧ store.final? = some A ∧ A.states.size = 9 ∧
        ∀ s, s ∈ A.alphabet ↔ s = epsilon ∨ ∃ c ∈ "(ab)|ab".toList,
          Regex.standsForItself c = true ∧ s = String.singleton c :=
  have hparse : Regex.parse "(ab)|ab" = .ok repeated := rfl
  ⟨hparse, size_final_of_parse hparse⟩

end ExpressionStore

end FiniteAutomata
