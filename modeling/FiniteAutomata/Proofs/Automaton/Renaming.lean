import FiniteAutomata.Proofs.Automaton.Isomorphism

/-!
# Labels have no influence

The labels of states decide the order in which states are looked at, which sets of states have the
same joined label, and how many primes are put behind it.  All of this is different after the states
have been renamed.  What corresponds to each other are the sets: the renamed automaton has the images
of the sets that are found in the original.  So the deterministic automata have corresponding states,
whatever their labels are.

* `Automaton.rename`, **`isomorphicBy_rename`** — an automaton with other labels.
* `correspondingLabel` — the label of a set and the label of its image.
* **`IsomorphicBy.discovered_iff`** — the sets that are found.
* **`IsomorphicBy.determinize`** — the deterministic automata differ in the labels of their states only.
* **`rename_has_no_influence`** — what the quick comparison and the verdicts make of it.
-/

namespace FiniteAutomata.Automaton

variable {A B : Automaton} {r : Label → Label} {S T U : StateSet} {q x : Label} {s : Symbol}
  {f : Flags} {e : Edge}

/-! ## Renaming -/

/-- The automaton with other labels.  States that get the same label become one, so it is meant for
functions that keep the labels of the automaton apart. -/
def rename (A : Automaton) (r : Label → Label) : Automaton :=
  assemble .deterministic (A.states.toList.map fun p => (r p.1, p.2)) A.alphabet.toList
    (A.edges.toList.map (·.rename r))

lemma get?_rename (hinj : Set.InjOn r {q | A.hasState q = true}) :
    (A.rename r).states.get? x = some f ↔ ∃ q, A.states.get? q = some f ∧ x = r q := by
  have hlabels : ((A.states.toList.map fun p => (r p.1, p.2)).map (·.1)).Nodup :=
    nodup_map_fst_states (g := id) fun _ hq _ ht h => hinj hq ht h
  rw [rename, get?_assemble, lookup_eq_some_iff_mem hlabels, List.mem_map]
  constructor
  · rintro ⟨⟨q, g⟩, hmem, h⟩
    obtain ⟨rfl, rfl⟩ := Prod.mk.inj h
    exact ⟨q, mem_states_toList.1 hmem, rfl⟩
  · rintro ⟨q, hq, rfl⟩
    exact ⟨(q, f), mem_states_toList.2 hq, rfl⟩

lemma alphabet_rename (A : Automaton) (r : Label → Label) : (A.rename r).alphabet = A.alphabet := by
  refine SortedSet.ext fun s => ?_
  rw [rename, mem_alphabet_assemble, SortedSet.mem_toList]
  exact or_iff_left fun h => by cases h.2

/-- No edge is lost, because both its ends are states under their new labels. -/
lemma mem_edges_rename (hinj : Set.InjOn r {q | A.hasState q = true}) :
    e ∈ (A.rename r).edges ↔ ∃ d ∈ A.edges, e = d.rename r := by
  have hstate : ∀ q, A.hasState q = true → (A.rename r).hasState (r q) = true := by
    intro q hq
    obtain ⟨f, hf⟩ := hasState_iff.1 hq
    exact hasState_of_get? ((get?_rename hinj).2 ⟨q, hf, rfl⟩)
  have hknown : ∀ d ∈ A.edges, (A.rename r).knows (d.rename r) = true := by
    intro d hd
    obtain ⟨hsource, hsymbol, htarget⟩ := knows_iff.1 (knows_of_mem hd)
    exact knows_iff.2 ⟨hstate _ hsource, (alphabet_rename A r).symm ▸ hsymbol, hstate _ htarget⟩
  rw [rename, mem_edges_assemble, ← rename, List.mem_map]
  constructor
  · rintro ⟨⟨d, hd, rfl⟩, -⟩
    exact ⟨d, hd, rfl⟩
  · rintro ⟨d, hd, rfl⟩
    exact ⟨⟨d, hd, rfl⟩, hknown d hd⟩

/-- **Renaming changes the labels and nothing else.** -/
theorem isomorphicBy_rename (hinj : Set.InjOn r {q | A.hasState q = true}) :
    A.IsomorphicBy (A.rename r) r :=
  isomorphicBy_of_renamed hinj (alphabet_rename A r) (fun _ _ => get?_rename hinj)
    fun _ => mem_edges_rename hinj

/-! ## Labels of sets -/

/-- The set that a label of the deterministic automaton stands for. -/
def setNamed (A : Automaton) (label : Label) : StateSet :=
  ((A.names.find? fun p => p.2 == label).map (·.1)).getD ∅

/-- The label that the set gets after its states have been renamed. -/
def correspondingLabel (A B : Automaton) (r : Label → Label) (label : Label) : Label :=
  B.setLabel ((A.setNamed label).image r)

lemma setNamed_setLabel (hS : A.Discovered S) : A.setNamed (A.setLabel S) = S := by
  have hsome : (A.names.find? fun p => p.2 == A.setLabel S).isSome = true :=
    List.find?_isSome.2 ⟨(S, A.setLabel S), mem_names.2 ⟨hS, rfl⟩, beq_self_eq_true _⟩
  obtain ⟨⟨T, label⟩, hfind⟩ := Option.isSome_iff_exists.1 hsome
  obtain ⟨hT, hlabel⟩ := mem_names.1 (List.mem_of_find?_eq_some hfind)
  have heq : label = A.setLabel S := by simpa using List.find?_some hfind
  rw [setNamed, hfind]
  exact setLabel_injective hT hS (hlabel.symm.trans heq)

namespace IsomorphicBy

/-! ## The deterministic automata -/

lemma letters_eq (iso : A.IsomorphicBy B r) : B.letters = A.letters := by
  rw [letters, letters, iso.alphabet]

lemma mem_successors_image (iso : A.IsomorphicBy B r) (hS : ∀ q ∈ S, A.hasState q = true) :
    (s, U) ∈ B.successors (S.image r) ↔ ∃ T, (s, T) ∈ A.successors S ∧ U = T.image r := by
  simp only [mem_successors, iso.letters_eq, iso.advance_image hS]
  constructor
  · rintro ⟨hs, rfl, x, hx⟩
    obtain ⟨t, ht, -⟩ := SortedSet.mem_image.1 hx
    exact ⟨_, ⟨hs, rfl, t, ht⟩, rfl⟩
  · rintro ⟨T, ⟨hs, rfl, t, ht⟩, rfl⟩
    exact ⟨hs, rfl, r t, SortedSet.mem_image_of_mem ht⟩

/-- **The sets that are found are the images of the sets that are found.** -/
theorem discovered_iff (iso : A.IsomorphicBy B r) :
    B.Discovered U ↔ ∃ S, A.Discovered S ∧ U = S.image r := by
  constructor
  · intro hU
    induction hU with
    | start => exact ⟨A.start, .start, iso.start_eq⟩
    | move _ hmove ih =>
        obtain ⟨S, hS, rfl⟩ := ih
        obtain ⟨T, hT, hU⟩ := (iso.mem_successors_image hS.hasState).1 hmove
        exact ⟨T, .move hS hT, hU⟩
  · rintro ⟨S, hS, rfl⟩
    induction hS with
    | start => exact iso.start_eq ▸ .start
    | move hS hmove ih =>
        exact .move ih ((iso.mem_successors_image hS.hasState).2 ⟨_, hmove, rfl⟩)

lemma discovered_image (iso : A.IsomorphicBy B r) (hS : A.Discovered S) : B.Discovered (S.image r) :=
  iso.discovered_iff.2 ⟨S, hS, rfl⟩

/-- Different sets that are found have different images. -/
lemma image_injective (iso : A.IsomorphicBy B r) (hS : A.Discovered S) (hT : A.Discovered T)
    (h : S.image r = T.image r) : S = T :=
  SortedSet.image_injective iso.bijective.injOn hS.hasState hT.hasState h

lemma setFlags_image (iso : A.IsomorphicBy B r) (hS : A.Discovered S) :
    B.setFlags (S.image r) = A.setFlags S := by
  have hstart : (S.image r == B.start) = (S == A.start) := by
    rw [Bool.eq_iff_iff, beq_iff_eq, beq_iff_eq, iso.start_eq]
    exact ⟨iso.image_injective hS .start, fun h => congrArg _ h⟩
  rw [setFlags, setFlags, hstart, iso.hasFinal_image hS.hasState]

/-- The label of the image of a set corresponds to the label of the set. -/
lemma correspondingLabel_setLabel (hS : A.Discovered S) :
    A.correspondingLabel B r (A.setLabel S) = B.setLabel (S.image r) := by
  rw [correspondingLabel, setNamed_setLabel hS]

lemma injOn_correspondingLabel (iso : A.IsomorphicBy B r) :
    Set.InjOn (A.correspondingLabel B r) {q | A.determinize.hasState q = true} := by
  intro q hq t ht h
  obtain ⟨S, hS, rfl⟩ := hasState_determinize.1 hq
  obtain ⟨T, hT, htlabel⟩ := hasState_determinize.1 ht
  rw [htlabel, correspondingLabel_setLabel hS, correspondingLabel_setLabel hT] at h
  have himage : S.image r = T.image r :=
    setLabel_injective (iso.discovered_image hS) (iso.discovered_image hT) h
  rw [htlabel, iso.image_injective hS hT himage]

lemma get?_determinize_iff (iso : A.IsomorphicBy B r) :
    B.determinize.states.get? x = some f ↔
      ∃ q, A.determinize.states.get? q = some f ∧ x = A.correspondingLabel B r q := by
  simp only [get?_determinize]
  constructor
  · rintro ⟨U, hU, rfl, rfl⟩
    obtain ⟨S, hS, rfl⟩ := iso.discovered_iff.1 hU
    refine ⟨A.setLabel S, ⟨S, hS, rfl, ?_⟩, ?_⟩
    · rw [iso.setFlags_image hS]
    · rw [correspondingLabel_setLabel hS]
  · rintro ⟨q, ⟨S, hS, rfl, rfl⟩, rfl⟩
    refine ⟨S.image r, iso.discovered_image hS, ?_, ?_⟩
    · rw [correspondingLabel_setLabel hS]
    · rw [iso.setFlags_image hS]

lemma mem_edges_determinize_iff (iso : A.IsomorphicBy B r) :
    e ∈ B.determinize.edges ↔
      ∃ d ∈ A.determinize.edges, e = d.rename (A.correspondingLabel B r) := by
  have hrename : ∀ {S T : StateSet} {s : Symbol}, A.Discovered S → (s, T) ∈ A.successors S →
      (⟨A.setLabel S, s, A.setLabel T⟩ : Edge).rename (A.correspondingLabel B r) =
        ⟨B.setLabel (S.image r), s, B.setLabel (T.image r)⟩ := by
    intro S T s hS hmove
    rw [Edge.rename, correspondingLabel_setLabel hS, correspondingLabel_setLabel (.move hS hmove)]
  simp only [mem_edges_determinize]
  constructor
  · rintro ⟨V, s, U, hV, hmove, rfl⟩
    obtain ⟨S, hS, rfl⟩ := iso.discovered_iff.1 hV
    obtain ⟨T, hT, rfl⟩ := (iso.mem_successors_image hS.hasState).1 hmove
    exact ⟨_, ⟨S, s, T, hS, hT, rfl⟩, (hrename hS hT).symm⟩
  · rintro ⟨_, ⟨S, s, T, hS, hT, rfl⟩, rfl⟩
    refine ⟨S.image r, s, T.image r, iso.discovered_image hS, ?_, ?_⟩
    · exact (iso.mem_successors_image hS.hasState).2 ⟨T, hT, rfl⟩
    · exact hrename hS hT

/-- **The deterministic automata differ only in the labels of their states.** -/
theorem determinize (iso : A.IsomorphicBy B r) :
    A.determinize.IsomorphicBy B.determinize (A.correspondingLabel B r) := by
  refine isomorphicBy_of_renamed iso.injOn_correspondingLabel ?_ (fun _ _ => iso.get?_determinize_iff)
    fun _ => iso.mem_edges_determinize_iff
  rw [alphabet_determinize, alphabet_determinize, iso.letters_eq]

end IsomorphicBy

/-! ## Renaming has no influence -/

/-- **Labels have no influence.**  If the new labels tell the states apart as the old ones did, then the
quick comparison finds the renamed automaton, the deterministic automata differ only in the labels of
their states, so that the quick comparison finds them too, and all four give every word the same
verdict. -/
theorem rename_has_no_influence (hinj : Set.InjOn r {q | A.hasState q = true}) :
    A.IsomorphicBy (A.rename r) r ∧ A.resembles (A.rename r) = true ∧
      (∃ r', A.determinize.IsomorphicBy (A.rename r).determinize r') ∧
      A.determinize.resembles (A.rename r).determinize = true ∧
      ∀ word, (A.rename r).accepts word = A.accepts word ∧
        A.determinize.walks word = A.accepts word ∧
        (A.rename r).determinize.walks word = A.accepts word := by
  have iso := isomorphicBy_rename hinj
  have hwalks : ∀ (C : Automaton) (word : String), C.determinize.walks word = C.accepts word := by
    intro C word
    rw [Bool.eq_iff_iff, walks_determinize_iff, accepts_iff_mem_language]
  refine ⟨iso, iso.resembles, ⟨_, iso.determinize⟩, iso.determinize.resembles, fun word => ?_⟩
  exact ⟨iso.accepts_eq word, hwalks A word, (hwalks _ word).trans (iso.accepts_eq word)⟩

/-- The sets of `1` and `12` and of `11` and `2` have the same joined label. -/
def ambiguous : Automaton :=
  build .nondeterministic [.state "1" .onlyInitial false, .state "12" .onlyInitial false,
    .state "11" .onlyFinal false, .state "2" .empty false, .symbol "a", .edge ⟨"1", "a", "11"⟩,
    .edge ⟨"1", "a", "2"⟩]

/-- With a comma behind each label no primes are needed, where one was needed before. -/
theorem rename_has_no_influence_ambiguous :
    Set.InjOn (· ++ ",") {q | ambiguous.hasState q = true} ∧
      ambiguous.labelClashes.length = 1 ∧
      (ambiguous.rename (· ++ ",")).labelClashes.length = 0 ∧
      (∃ r', ambiguous.determinize.IsomorphicBy (ambiguous.rename (· ++ ",")).determinize r') ∧
      (ambiguous.rename (· ++ ",")).determinize.walks "a" = true := by
  have hinj : Set.InjOn (· ++ ",") {q | ambiguous.hasState q = true} := by
    intro q _ t _ h
    exact (String.append_left_inj ",").1 h
  obtain ⟨-, -, hdeterminize, -, hwords⟩ := rename_has_no_influence hinj
  refine ⟨hinj, by decide, by decide, hdeterminize, ?_⟩
  rw [(hwords "a").2.2]
  decide

end FiniteAutomata.Automaton
