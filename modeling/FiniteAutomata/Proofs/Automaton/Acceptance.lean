import FiniteAutomata.Proofs.Automaton.Languages

/-!
# What combinations accept

The languages of the combinations, said of words as the simulation gets them: what a sequence accepts
can be cut into two accepted words, what a choice accepts is accepted by one of its operands, and what
a repetition accepts can be cut into any number of accepted words.  The cuts are not given; that there
is one says the language of the combination.

A repetition has no edge on `epsilon` from a state to itself where the state was both initial and
final.  Such an edge reads nothing and leads nowhere else, so a run may drop it
(`Run.of_silentLoops`), and the repetition with these edges accepts the same words.

* **`language_eq_of_silentLoops`** — edges on `epsilon` from a state to itself change no language.
* `iterateWithLoops` — the repetition that makes no exception.
* **`accepts_concat_iff`** — the words of a sequence.
* **`accepts_union_iff`** — the words of a choice.
* **`accepts_iterate_iff`** — the words of a repetition, with the loops or without them.
-/

namespace FiniteAutomata.Automaton

open Computability

variable {A B : Automaton} {supply : LabelSupply} {L M : Language Char} {q t : Label} {e : Edge}
  {w : List Char} {word : String}

/-! ## Cutting words -/

lemma mem_mul_iff_exists_words :
    word.toList ∈ L * M ↔ ∃ u v : String, word = u ++ v ∧ u.toList ∈ L ∧ v.toList ∈ M := by
  rw [Language.mem_mul]
  constructor
  · rintro ⟨u, hu, v, hv, huv⟩
    refine ⟨String.ofList u, String.ofList v, ?_, by simpa using hu, by simpa using hv⟩
    simp [← String.toList_inj, huv]
  · rintro ⟨u, v, hword, hu, hv⟩
    exact ⟨u.toList, hu, v.toList, hv, by simp [hword]⟩

lemma mem_kstar_iff_exists_words :
    word.toList ∈ L∗ ↔
      ∃ words : List String, word = String.join words ∧ ∀ v ∈ words, v.toList ∈ L := by
  rw [Language.mem_kstar]
  constructor
  · rintro ⟨parts, hword, hparts⟩
    refine ⟨parts.map String.ofList, ?_, by simpa using hparts⟩
    simp [← String.toList_inj, hword, String.toList_join, List.flatMap_map]
  · rintro ⟨words, hword, hwords⟩
    refine ⟨words.map String.toList, ?_, by simpa using hwords⟩
    simp [hword, String.toList_join, List.flatMap_def]

/-! ## Sequence -/

/-- **A sequence accepts a word if the word can be cut** so that the left automaton accepts what is
before the cut and the right one what is behind it. -/
theorem accepts_concat_iff (A B : Automaton) (supply : LabelSupply) (word : String) :
    (A.concat B supply).1.accepts word = true ↔
      ∃ u v : String, word = u ++ v ∧ A.accepts u = true ∧ B.accepts v = true := by
  simp only [accepts_iff_mem_language]
  rw [language_concat, mem_mul_iff_exists_words]

/-! ## Choice -/

/-- **A choice accepts a word if one of its operands does.**  The operands may have labels in common or
be the same automaton, and any number of their states may be initial; a word with a symbol that only one
of them has is decided by that one. -/
theorem accepts_union_iff (A B : Automaton) (supply : LabelSupply) (word : String) :
    (A.union B supply).1.accepts word = true ↔ A.accepts word = true ∨ B.accepts word = true := by
  simp only [accepts_iff_mem_language]
  rw [language_union, Language.mem_add]

/-! ## Edges that lead nowhere -/

section SilentLoops

variable (hloops : ∀ e ∈ B.edges, e ∈ A.edges ∨ e.symbol = epsilon ∧ e.source = e.target)

include hloops

/-- A run can do without edges on `epsilon` from a state to itself. -/
lemma Run.of_silentLoops (run : B.Run q w t) : A.Run q w t := by
  induction run with
  | refl q => exact .refl q
  | step edge reads _ ih =>
      rcases hloops _ edge with hedge | ⟨hsymbol, hends⟩
      · exact .step hedge reads ih
      · -- nothing is read, and the run goes on from the same state
        simp only at hsymbol hends
        subst hsymbol hends
        simpa [reads.eq_nil] using ih

/-- **Edges on `epsilon` from a state to itself change no language.** -/
theorem language_eq_of_silentLoops (hstates : B.states = A.states)
    (hedges : ∀ e ∈ A.edges, e ∈ B.edges) : B.language = A.language := by
  have hinitial : B.initial = A.initial := by rw [initial, initial, hstates]
  have hfinal : B.final = A.final := by rw [final, final, hstates]
  ext w
  simp only [mem_language, mem_languageFrom, hinitial, hfinal]
  constructor
  · rintro ⟨q, hq, t, ht, run⟩
    exact ⟨q, hq, t, ht, run.of_silentLoops hloops⟩
  · rintro ⟨q, hq, t, ht, run⟩
    exact ⟨q, hq, t, ht, run.rename (f := id) hedges⟩

end SilentLoops

/-! ## Repetition -/

/-- The edges back to the beginning, those from a state to itself among them. -/
def iterateEdgesWithLoops (A : Automaton) (supply : LabelSupply) : List Edge :=
  (A.final.toList.map (A.copyLabel supply)).flatMap fun q =>
    (A.initial.toList.map (A.copyLabel supply)).map fun t => ⟨q, epsilon, t⟩

/-- The repetition in which a state that was both initial and final gets an edge to itself. -/
def iterateWithLoops (A : Automaton) (supply : LabelSupply) : Automaton :=
  A.withRepeats supply (A.iterateEdgesWithLoops supply)

lemma mem_iterateEdgesWithLoops :
    e ∈ A.iterateEdgesWithLoops supply ↔
      ∃ q ∈ A.final, ∃ t ∈ A.initial,
        e = ⟨A.copyLabel supply q, epsilon, A.copyLabel supply t⟩ := by
  simp [iterateEdgesWithLoops, eq_comm]

lemma mem_edges_iterateWithLoops :
    e ∈ (A.iterateWithLoops supply).edges ↔
      (∃ q ∈ A.initial, e = ⟨A.iterateEntry supply, epsilon, A.copyLabel supply q⟩) ∨
      (∃ q ∈ A.final, ∃ t ∈ A.initial,
        e = ⟨A.copyLabel supply q, epsilon, A.copyLabel supply t⟩) ∨
        ∃ d ∈ A.edges, e = d.rename (A.copyLabel supply) := by
  have hagain : ∀ d ∈ A.iterateEdgesWithLoops supply, (A.iterateCopy supply).knows d = true := by
    intro d hd
    obtain ⟨q, hq, t, ht, rfl⟩ := mem_iterateEdgesWithLoops.1 hd
    exact knows_iterateCopy hq ht
  rw [iterateWithLoops, mem_edges_withRepeats hagain, mem_iterateEdgesWithLoops]

lemma language_iterateWithLoops : (A.iterateWithLoops supply).language = A.language∗ := by
  rw [← @language_iterate A supply]
  refine language_eq_of_silentLoops (fun e he => ?_) ?_ fun e he => ?_
  · rw [mem_edges_iterate]
    rcases mem_edges_iterateWithLoops.1 he with hentry | ⟨q, hq, t, ht, rfl⟩ | hcopied
    · exact .inl (.inl hentry)
    · by_cases hloop : A.copyLabel supply t = A.copyLabel supply q
      · exact .inr ⟨rfl, hloop.symm⟩
      · exact .inl (.inr (.inl ⟨q, hq, t, ht, hloop, rfl⟩))
    · exact .inl (.inr (.inr hcopied))
  · refine SortedMap.ext fun x => Option.ext fun f => ?_
    rw [iterateWithLoops, get?_withRepeats, get?_iterate]
  · rw [mem_edges_iterateWithLoops]
    rcases mem_edges_iterate.1 he with hentry | ⟨q, hq, t, ht, -, rfl⟩ | hcopied
    · exact .inl hentry
    · exact .inr (.inl ⟨q, hq, t, ht, rfl⟩)
    · exact .inr (.inr hcopied)

/-- **A repetition accepts a word if the word can be cut into words that the operand accepts**, none,
one or more.  Whether a state that was both initial and final gets an edge on `epsilon` to itself makes
no difference to any word. -/
theorem accepts_iterate_iff (A : Automaton) (supply : LabelSupply) (word : String) :
    ((A.iterate supply).1.accepts word = true ↔
      ∃ words : List String, word = String.join words ∧ ∀ v ∈ words, A.accepts v = true) ∧
    (A.iterateWithLoops supply).accepts word = (A.iterate supply).1.accepts word := by
  have hloops : (A.iterateWithLoops supply).accepts word = true ↔
      (A.iterate supply).1.accepts word = true := by
    rw [accepts_iff_mem_language, accepts_iff_mem_language, language_iterateWithLoops,
      language_iterate]
  refine ⟨?_, Bool.eq_iff_iff.2 hloops⟩
  simp only [accepts_iff_mem_language]
  rw [language_iterate, mem_kstar_iff_exists_words]

end FiniteAutomata.Automaton
