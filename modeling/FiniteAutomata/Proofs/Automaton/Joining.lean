import FiniteAutomata.Proofs.Automaton.Determinize
import FiniteAutomata.Proofs.Automaton.Labels
import FiniteAutomata.Proofs.Numeral

/-!
# Joined labels that can be taken apart

The label of a set is made of the labels of its members with nothing between them, and in general two
sets can have the same one.  Labels from a supply begin with a letter and go on with digits, so the letters
show where the members begin: cutting at the letter gives back the numbers, whatever their order in the
set is.  Hence sets of such labels need no primes.

* `Numbered` — automata all of whose labels are like those of a supply.
* `splitOn_append_labels` — the numbers are read off the labels one behind the other.
* **`Numbered.joinLabels_injective`** — different sets have different joined labels.
* **`Numbered.namedByJoining`** — every set is named by its joined label alone.
* `numbered_concat`, `numbered_union`, `numbered_iterate`, `numbered_ofSymbol` — what is numbered.
-/

namespace FiniteAutomata

/-- The digits of a number do not hold the letter that labels begin with. -/
lemma LabelSupply.letter_not_mem_toString (n : Nat) : 'q' ∉ (toString n).toList := by
  intro h
  have hdigit := isDigit_of_mem_toString h
  cases hdigit

namespace Automaton

variable {A B : Automaton} {S T : StateSet} {supply : LabelSupply} {q : Label} {s : Symbol}

/-! ## Reading the numbers off -/

/-- Between the letters stand the numbers, behind whatever comes before the first letter. -/
lemma splitOn_append_labels {before : List Char} (hbefore : 'q' ∉ before) (ns : List Nat) :
    (before ++ ns.flatMap fun n => (LabelSupply.label n).toList).splitOn 'q' =
      before :: ns.map fun n => (toString n).toList := by
  induction ns generalizing before with
  | nil =>
      have hnone : ∀ c ∈ before, (c == 'q') = false := by
        intro c hc
        rw [beq_eq_false_iff_ne]
        rintro rfl
        exact hbefore hc
      rw [List.flatMap_nil, List.append_nil, List.map_nil]
      exact List.splitOnP_eq_singleton hnone
  | cons n ns ih =>
      have hlabel : (LabelSupply.label n).toList = 'q' :: (toString n).toList := by
        simp [LabelSupply.label]
      rw [List.flatMap_cons, hlabel, List.cons_append,
        List.splitOn_append_cons_self_of_not_mem hbefore, ih (LabelSupply.letter_not_mem_toString n),
        List.map_cons]

/-- Labels of a supply, one behind the other, are told apart by their text. -/
lemma eq_of_flatMap_label {ms ns : List Nat}
    (h : (ms.flatMap fun n => (LabelSupply.label n).toList) =
      ns.flatMap fun n => (LabelSupply.label n).toList) : ms = ns := by
  have hms := splitOn_append_labels List.not_mem_nil ms
  have hns := splitOn_append_labels List.not_mem_nil ns
  rw [h, hns] at hms
  have hdigits : ns.map (fun n => (toString n).toList) = ms.map fun n => (toString n).toList :=
    (List.cons.inj hms).2
  exact (List.map_injective_iff.2 (fun _ _ => toString_nat_injective) hdigits).symm

/-! ## Automata with such labels -/

/-- Every label is the letter of the supply with a number behind it. -/
def Numbered (A : Automaton) : Prop := ∀ q, A.hasState q = true → ∃ n, q = LabelSupply.label n

/-- The members of a set of such labels are listed by their numbers. -/
lemma Numbered.exists_toList_eq (h : A.Numbered) (hS : ∀ q ∈ S, A.hasState q = true) :
    ∃ ns : List Nat, S.toList = ns.map LabelSupply.label := by
  have hlabels : S.toList ∈ Set.range (List.map LabelSupply.label) := by
    rw [Set.range_list_map]
    intro q hq
    obtain ⟨n, rfl⟩ := h q (hS q hq)
    exact Set.mem_range_self n
  obtain ⟨ns, hns⟩ := hlabels
  exact ⟨ns, hns.symm⟩

lemma toList_joinLabels (S : StateSet) : (joinLabels S).toList = S.toList.flatMap String.toList := by
  rw [joinLabels, String.toList_join]

/-- **Different sets of states have different joined labels.** -/
theorem Numbered.joinLabels_injective (h : A.Numbered) (hS : ∀ q ∈ S, A.hasState q = true)
    (hT : ∀ q ∈ T, A.hasState q = true) (hjoin : joinLabels S = joinLabels T) : S = T := by
  obtain ⟨ms, hms⟩ := h.exists_toList_eq hS
  obtain ⟨ns, hns⟩ := h.exists_toList_eq hT
  have hchars := congrArg String.toList hjoin
  rw [toList_joinLabels, toList_joinLabels, hms, hns, List.flatMap_map, List.flatMap_map] at hchars
  obtain rfl := eq_of_flatMap_label hchars
  refine SortedSet.ext fun q => ?_
  rw [SortedSet.mem_def, SortedSet.mem_def, hms, hns]

/-- Sets of states are told apart by their joined labels, no label clashes, and the deterministic
automaton has the joined labels as they are. -/
structure NamedByJoining (A : Automaton) : Prop where
  injective : ∀ S T : StateSet, (∀ q ∈ S, A.hasState q = true) → (∀ q ∈ T, A.hasState q = true) →
    joinLabels S = joinLabels T → S = T
  clashes : A.labelClashes = []
  names : A.names = A.exploration.sets.map fun S => (S, joinLabels S)
  /-- The states are the joined labels of the sets, with the marks of the sets. -/
  states : ∀ label f, A.determinize.states.get? label = some f ↔
    ∃ S, A.Discovered S ∧ label = joinLabels S ∧ f = A.setFlags S
  /-- The edges lead between these labels. -/
  edges : ∀ e, e ∈ A.determinize.edges ↔
    ∃ S s T, A.Discovered S ∧ (s, T) ∈ A.successors S ∧ e = ⟨joinLabels S, s, joinLabels T⟩

/-- **Every set of such labels is named by its joined label alone.** -/
theorem Numbered.namedByJoining (h : A.Numbered) : A.NamedByJoining := by
  obtain ⟨hlabel, hclashes⟩ := names_of_joinLabels_injective (A := A) fun S T hS hT hjoin =>
    h.joinLabels_injective hS.hasState hT.hasState hjoin
  refine ⟨fun S T hS hT => h.joinLabels_injective hS hT, hclashes, ?_, fun label f => ?_, fun e => ?_⟩
  · have hsets : A.names.map (·.1) = A.exploration.sets := map_fst_nameSets _
    rw [← hsets, List.map_map]
    refine (List.map_id _).symm.trans (List.map_congr_left fun p hp => ?_)
    obtain ⟨hS, hname⟩ := mem_names.1 hp
    exact Prod.ext rfl (hname.trans (hlabel _ hS))
  · rw [get?_determinize]
    constructor
    · rintro ⟨S, hS, rfl, rfl⟩
      exact ⟨S, hS, hlabel S hS, rfl⟩
    · rintro ⟨S, hS, rfl, rfl⟩
      exact ⟨S, hS, (hlabel S hS).symm, rfl⟩
  · rw [mem_edges_determinize]
    constructor
    · rintro ⟨S, s, T, hS, hmove, rfl⟩
      exact ⟨S, s, T, hS, hmove, by rw [hlabel S hS, hlabel T (hS.move hmove)]⟩
    · rintro ⟨S, s, T, hS, hmove, rfl⟩
      exact ⟨S, s, T, hS, hmove, by rw [hlabel S hS, hlabel T (hS.move hmove)]⟩

/-! ## What has such labels -/

lemma LabelledBetween.numbered {before behind : LabelSupply} (h : A.LabelledBetween before behind) :
    A.Numbered := by
  intro q hq
  obtain ⟨n, -, -, hn⟩ := h q hq
  exact ⟨n, hn⟩

lemma numbered_concat : (A.concat B supply).1.Numbered :=
  (labelledBetween_make (c := .concat A B)).numbered

lemma numbered_union : (A.union B supply).1.Numbered :=
  (labelledBetween_make (c := .union A B)).numbered

lemma numbered_iterate : (A.iterate supply).1.Numbered :=
  (labelledBetween_make (c := .iterate A)).numbered

lemma numbered_ofSymbol : (ofSymbol s).Numbered := fun _ => exists_label_of_hasState_ofSymbol

lemma numbered_ofNothing : ofNothing.Numbered := by
  intro q hq
  obtain ⟨f, hf⟩ := hasState_iff.1 hq
  rw [ofNothing, get?_addState] at hf
  split_ifs at hf with hlabel
  · exact ⟨0, hlabel⟩
  · cases hf

lemma numbered_ofEmptyWord : ofEmptyWord.Numbered := by
  intro q hq
  obtain ⟨f, hf⟩ := hasState_iff.1 hq
  exact ⟨0, (get?_ofEmptyWord.1 hf).1⟩

/-- What there is to begin with for a set of symbols has such labels. -/
lemma numbered_ofSymbols? {symbols : SortedSet Symbol} (h : ofSymbols? symbols = some A) :
    A.Numbered := by
  rw [ofSymbols?] at h
  split at h
  · obtain rfl := Option.some.inj h
    exact numbered_ofNothing
  · obtain rfl := Option.some.inj h
    exact numbered_ofSymbol
  · cases h

end Automaton

end FiniteAutomata
