import FiniteAutomata.Proofs.Automaton.Changes
import FiniteAutomata.Proofs.Automaton.Exploration

/-!
# Names of sets

The joined labels of two sets can be the same text, and a label with primes can be the joined label
of a third set.  The sets are named one after the other, each with a label that no earlier set has;
hence the names are distinct, whatever the labels look like.  That there is always such a label is a
pigeonhole argument: of `n + 1` candidates one is not among `n` labels in use.

* `primed_eq` — a name is the joined label with some primes behind it.
* **`unusedLabel_not_mem`** — the search for a label ends with one that is not in use.
* `setLabel` — the name of a set.
* `names_of_joinLabels_injective` — without primes, if the joined labels are told apart already.
* **`setLabel_injective`** — different sets of the exploration have different names.
-/

namespace FiniteAutomata.Automaton

/-! ## Primes -/

/-- So many primes. -/
def primes (n : Nat) : String := String.ofList (List.replicate n '\'')

lemma append_primes_succ (label : Label) (n : Nat) :
    label ++ "'" ++ primes n = label ++ primes (n + 1) := by
  rw [← String.toList_inj]
  simp [primes, List.replicate_succ]

lemma append_primes_injective (label : Label) : Function.Injective fun n => label ++ primes n := by
  intro m n h
  have := congrArg String.length h
  simpa [primes] using this

/-- The search only adds primes, and only to labels in use. -/
lemma primed_eq (used : List Label) :
    ∀ (n : Nat) (label : Label), ∃ k ≤ n, primed used n label = label ++ primes k ∧
      ∀ j < k, label ++ primes j ∈ used
  | 0, label => ⟨0, le_rfl, by simp [primed, primes], fun j hj => absurd hj (Nat.not_lt_zero j)⟩
  | n + 1, label => by
      rw [primed]
      split
      · next hlabel =>
        obtain ⟨k, hk, h, hbefore⟩ := primed_eq used n (label ++ "'")
        refine ⟨k + 1, by omega, by rw [h, append_primes_succ], fun j hj => ?_⟩
        cases j with
        | zero => simpa [primes] using hlabel
        | succ j =>
            rw [← append_primes_succ]
            exact hbefore j (by omega)
      · exact ⟨0, by omega, by simp [primes], fun j hj => absurd hj (Nat.not_lt_zero j)⟩

/-- If the search ends with a label in use, then it has tried only such labels. -/
lemma mem_used_of_primed_mem {used : List Label} :
    ∀ {n : Nat} {label : Label}, primed used n label ∈ used → ∀ k ≤ n, label ++ primes k ∈ used
  | 0, label, h, k, hk => by
      obtain rfl : k = 0 := by omega
      simpa [primed, primes] using h
  | n + 1, label, h, k, hk => by
      rw [primed] at h
      split at h
      · next hlabel =>
        match k with
        | 0 => simpa [primes] using hlabel
        | k + 1 =>
            rw [← append_primes_succ]
            exact mem_used_of_primed_mem h k (by omega)
      · next hlabel => exact absurd h hlabel

/-- **The search for a label ends with one that is not in use.** -/
theorem unusedLabel_not_mem (used : List Label) (label : Label) :
    unusedLabel used label ∉ used := by
  intro h
  -- all candidates would be in use, and there is one more of them than there are labels
  have hall : (List.range (used.length + 1)).map (fun n => label ++ primes n) ⊆ used := by
    intro l hl
    obtain ⟨n, hn, rfl⟩ := List.mem_map.1 hl
    exact mem_used_of_primed_mem h n (Nat.lt_succ_iff.1 (List.mem_range.1 hn))
  have hnodup : ((List.range (used.length + 1)).map fun n => label ++ primes n).Nodup :=
    List.nodup_range.map (append_primes_injective label)
  have hlength := (hnodup.subperm hall).length_le
  rw [List.length_map, List.length_range] at hlength
  omega

/-! ## The list of names -/

lemma nameSets_concat (sets : List StateSet) (S : StateSet) :
    nameSets (sets ++ [S]) = nameSets sets ++
      [(S, unusedLabel ((nameSets sets).map (·.2)) (joinLabels S))] := by
  rw [nameSets, List.foldl_concat]
  rfl

/-- The names are listed with the sets, in their order. -/
lemma map_fst_nameSets (sets : List StateSet) : (nameSets sets).map (·.1) = sets := by
  induction sets using List.reverseRecOn with
  | nil => rfl
  | append_singleton sets S ih => simp [nameSets_concat, ih]

/-- No name is given twice. -/
lemma nodup_map_snd_nameSets (sets : List StateSet) : ((nameSets sets).map (·.2)).Nodup := by
  induction sets using List.reverseRecOn with
  | nil => exact List.nodup_nil
  | append_singleton sets S ih =>
      rw [nameSets_concat, List.map_append]
      refine List.nodup_append'.2 ⟨ih, List.nodup_singleton _, ?_⟩
      intro label hlabel hnew
      obtain rfl := List.mem_singleton.1 hnew
      exact unusedLabel_not_mem _ _ hlabel

/-- Every name is the joined label of the set with some primes behind it. -/
lemma eq_joinLabels_append_of_mem_nameSets {sets : List StateSet} {p : StateSet × Label}
    (h : p ∈ nameSets sets) : ∃ n, p.2 = joinLabels p.1 ++ primes n := by
  induction sets using List.reverseRecOn with
  | nil => simp [nameSets] at h
  | append_singleton sets S ih =>
      rw [nameSets_concat] at h
      rcases List.mem_append.1 h with h | h
      · exact ih h
      · obtain rfl := List.mem_singleton.1 h
        obtain ⟨n, -, hn, -⟩ := primed_eq ((nameSets sets).map (·.2)) _ (joinLabels S)
        exact ⟨n, hn⟩

/-- A label that is not in use needs no primes. -/
lemma unusedLabel_eq_self {used : List Label} {label : Label} (h : label ∉ used) :
    unusedLabel used label = label := by
  rw [unusedLabel]
  cases used.length with
  | zero => rfl
  | succ n => rw [primed, if_neg h]

/-- Sets that are told apart by their joined labels are named by these. -/
lemma nameSets_eq_map {sets : List StateSet} (h : (sets.map joinLabels).Nodup) :
    nameSets sets = sets.map fun S => (S, joinLabels S) := by
  induction sets using List.reverseRecOn with
  | nil => rfl
  | append_singleton sets S ih =>
      rw [List.map_append, List.map_singleton, List.nodup_append'] at h
      obtain ⟨hbefore, -, hdisjoint⟩ := h
      have hnames : (nameSets sets).map (·.2) = sets.map joinLabels := by
        rw [ih hbefore, List.map_map]
        rfl
      have hnew : joinLabels S ∉ (nameSets sets).map (·.2) := by
        rw [hnames]
        exact fun hmem => hdisjoint hmem (List.mem_singleton_self _)
      rw [nameSets_concat, unusedLabel_eq_self hnew, ih hbefore, List.map_append, List.map_singleton]

/-! ## The name of a set -/

variable {A : Automaton} {S T : StateSet} {label q : Label}

/-- The name of a set of the exploration. -/
def setLabel (A : Automaton) (S : StateSet) : Label := nameIn A.names S

lemma mem_names : (S, label) ∈ A.names ↔ A.Discovered S ∧ label = A.setLabel S := by
  have hfst : (A.names.map (·.1)) = A.exploration.sets := map_fst_nameSets _
  have hnodup : (A.names.map (·.1)).Nodup := hfst ▸ exploration_sets_nodup
  constructor
  · intro h
    refine ⟨mem_exploration_sets.1 (hfst ▸ List.mem_map_of_mem h), ?_⟩
    rw [setLabel, nameIn, (lookup_eq_some_iff_mem hnodup).2 h, Option.getD_some]
  · rintro ⟨hS, rfl⟩
    obtain ⟨⟨S', l⟩, hmem, rfl⟩ := List.mem_map.1 (hfst ▸ mem_exploration_sets.2 hS)
    rwa [setLabel, nameIn, (lookup_eq_some_iff_mem hnodup).2 hmem, Option.getD_some]

lemma exists_setLabel_eq (hS : A.Discovered S) :
    ∃ n, A.setLabel S = joinLabels S ++ primes n :=
  eq_joinLabels_append_of_mem_nameSets (mem_names.2 ⟨hS, rfl⟩)

/-- A name is written with the characters of the labels of states, and with primes. -/
lemma exists_of_mem_setLabel {c : Char} (hS : A.Discovered S) (hc : c ∈ (A.setLabel S).toList) :
    c = '\'' ∨ ∃ q, A.hasState q = true ∧ c ∈ q.toList := by
  obtain ⟨n, hn⟩ := exists_setLabel_eq hS
  rw [hn, String.toList_append, List.mem_append, joinLabels, String.toList_join,
    List.mem_flatMap] at hc
  rcases hc with ⟨q, hq, hc⟩ | hc
  · exact .inr ⟨q, hS.hasState q hq, hc⟩
  · rw [primes, String.toList_ofList] at hc
    exact .inl (List.eq_of_mem_replicate hc)

/-- Apart from primes, a name is written with the characters of the members. -/
lemma mem_toList_setLabel_iff {c : Char} (hS : A.Discovered S) (hc : c ≠ '\'') :
    c ∈ (A.setLabel S).toList ↔ ∃ q ∈ S, c ∈ q.toList := by
  obtain ⟨n, hn⟩ := exists_setLabel_eq hS
  have hprimes : c ∉ (primes n).toList := by simp [primes, hc]
  rw [hn, String.toList_append, List.mem_append, or_iff_left hprimes, joinLabels,
    String.toList_join, List.mem_flatMap]
  rfl

/-- The name of a set that is not empty is not empty, if no label is. -/
lemma setLabel_ne_empty (hS : A.Discovered S) (hlabels : ∀ q, A.hasState q = true → q ≠ "")
    (hq : q ∈ S) : A.setLabel S ≠ "" := by
  obtain ⟨n, hn⟩ := exists_setLabel_eq hS
  obtain ⟨c, hc⟩ := List.exists_mem_of_ne_nil q.toList fun hnil =>
    hlabels q (hS.hasState q hq) (String.toList_eq_nil_iff.1 hnil)
  intro hempty
  have hmem : c ∈ (A.setLabel S).toList := by
    rw [hn, String.toList_append, joinLabels, String.toList_join]
    exact List.mem_append_left _ (List.mem_flatMap.2 ⟨q, hq, hc⟩)
  rw [hempty, String.toList_empty] at hmem
  cases hmem

/-- **If no two sets have the same joined label, every set is named by its joined label**, and no
label clashes. -/
theorem names_of_joinLabels_injective
    (h : ∀ S T, A.Discovered S → A.Discovered T → joinLabels S = joinLabels T → S = T) :
    (∀ S, A.Discovered S → A.setLabel S = joinLabels S) ∧ A.labelClashes = [] := by
  have hnodup : (A.exploration.sets.map joinLabels).Nodup := by
    refine List.Nodup.map_on (fun S hS T hT => ?_) exploration_sets_nodup
    exact h S T (mem_exploration_sets.1 hS) (mem_exploration_sets.1 hT)
  have hnames : A.names = A.exploration.sets.map fun S => (S, joinLabels S) := nameSets_eq_map hnodup
  constructor
  · intro S hS
    have hmem : (S, joinLabels S) ∈ A.names := by
      rw [hnames]
      exact List.mem_map_of_mem (mem_exploration_sets.2 hS)
    exact (mem_names.1 hmem).2.symm
  · rw [labelClashes, hnames, List.map_eq_nil_iff, List.filter_eq_nil_iff]
    simp

/-- **Different sets of the exploration have different names.** -/
theorem setLabel_injective (hS : A.Discovered S) (hT : A.Discovered T)
    (h : A.setLabel S = A.setLabel T) : S = T := by
  have hS' : (S, A.setLabel S) ∈ A.names := mem_names.2 ⟨hS, rfl⟩
  have hT' : (T, A.setLabel S) ∈ A.names := mem_names.2 ⟨hT, h⟩
  have := List.inj_on_of_nodup_map (nodup_map_snd_nameSets _) hS' hT' rfl
  exact congrArg Prod.fst this

end FiniteAutomata.Automaton
