import FiniteAutomata.Proofs.Automaton.Languages
import FiniteAutomata.Proofs.Automaton.Supply

/-!
# What tells automata apart

A combination has no label in common with what was built before it, since all of its states get labels
that the supply had not handed out yet.  The automata of single symbols share the labels `q0` and `q1`
with each other and perhaps with one combination; but no edge of theirs carries `epsilon`, and every
combination of automata that have initial and final states has such an edge.

* `LabelledBetween` — states get their labels while the supply goes from one place to another.
* `HasEnds` — there are states for runs to begin and to end in.
* `Combined` — what `combined_concat`, `combined_union` and `combined_iterate` say of combinations.
* **`Combined.ne_ofSymbol`, `Combined.ne_of_le`** — a combination is neither the automaton of a symbol
  nor a combination that was made before.
* `mem_alphabet_concat`, `mem_alphabet_union`, `mem_alphabet_iterate` — the alphabets.
-/

namespace FiniteAutomata.Automaton

variable {A B : Automaton} {supply before behind : LabelSupply} {q : Label} {s t : Symbol}

/-! ## Labels -/

/-- The labels of all states are handed out while the supply goes from `before` to `behind`. -/
def LabelledBetween (A : Automaton) (before behind : LabelSupply) : Prop :=
  ∀ q, A.hasState q = true →
    ∃ n, before.handedOut ≤ n ∧ n < behind.handedOut ∧ q = LabelSupply.label n

lemma labelledBetween_make {c : Combination} :
    (c.make supply).1.LabelledBetween supply (c.make supply).2 :=
  fun q => ((Step.mk c supply).ownLabels.hasState_iff q).1

/-! ## Beginnings and ends -/

/-- Runs can begin somewhere and end somewhere. -/
def HasEnds (A : Automaton) : Prop := (∃ q, q ∈ A.initial) ∧ ∃ q, q ∈ A.final

/-- What a combination is like that was made while the supply went from `before` to `behind`. -/
structure Combined (A : Automaton) (before behind : LabelSupply) : Prop where
  labels : A.LabelledBetween before behind
  ends : A.HasEnds
  silent : ∃ e ∈ A.edges, e.symbol = epsilon

lemma combined_concat (hA : A.HasEnds) (hB : B.HasEnds) :
    (A.concat B supply).1.Combined supply (A.concat B supply).2 := by
  obtain ⟨⟨p, hp⟩, q, hq⟩ := hA
  obtain ⟨⟨r, hr⟩, t, ht⟩ := hB
  refine ⟨labelledBetween_make (c := .concat A B), ⟨?_, ?_⟩, ?_⟩
  · exact ⟨_, mem_initial_concat.2 ⟨p, hp, rfl⟩⟩
  · exact ⟨_, mem_final_concat.2 ⟨t, ht, rfl⟩⟩
  · exact ⟨_, mem_edges_concat.2 (.inl ⟨q, hq, r, hr, rfl⟩), rfl⟩

lemma combined_union (hA : A.HasEnds) :
    (A.union B supply).1.Combined supply (A.union B supply).2 := by
  obtain ⟨⟨p, hp⟩, q, hq⟩ := hA
  refine ⟨labelledBetween_make (c := .union A B), ⟨?_, ?_⟩, ?_⟩
  · exact ⟨_, mem_initial_union.2 rfl⟩
  · exact ⟨_, mem_final_union.2 (.inl ⟨q, hq, rfl⟩)⟩
  · exact ⟨_, mem_edges_union.2 (.inl ⟨p, hp, rfl⟩), rfl⟩

lemma combined_iterate (hA : A.HasEnds) :
    (A.iterate supply).1.Combined supply (A.iterate supply).2 := by
  obtain ⟨⟨p, hp⟩, -⟩ := hA
  refine ⟨labelledBetween_make (c := .iterate A), ⟨?_, ?_⟩, ?_⟩
  · exact ⟨_, mem_initial_iterate.2 rfl⟩
  · exact ⟨_, mem_final_iterate.2 (.inl rfl)⟩
  · exact ⟨_, mem_edges_iterate.2 (.inl ⟨p, hp, rfl⟩), rfl⟩

namespace Combined

/-- A combination takes at least one label from the supply. -/
lemma lt (h : A.Combined before behind) : before.handedOut < behind.handedOut := by
  obtain ⟨⟨q, hq⟩, -⟩ := h.ends
  obtain ⟨n, hn, hlt, -⟩ := h.labels q (hasState_of_mem_initial hq)
  omega

lemma mono {before' behind' : LabelSupply} (h : A.Combined before behind)
    (hbefore : before'.handedOut ≤ before.handedOut)
    (hbehind : behind.handedOut ≤ behind'.handedOut) : A.Combined before' behind' where
  labels q hq := by
    obtain ⟨n, hn, hlt, hlabel⟩ := h.labels q hq
    exact ⟨n, by omega, by omega, hlabel⟩
  ends := h.ends
  silent := h.silent

/-- **What was made later is another automaton**: the labels of the two have nothing in common. -/
theorem ne_of_le {before' behind' : LabelSupply} (h : A.Combined before behind)
    (h' : B.Combined before' behind') (hle : behind.handedOut ≤ before'.handedOut) : A ≠ B := by
  rintro rfl
  obtain ⟨⟨q, hq⟩, -⟩ := h.ends
  obtain ⟨m, -, hm, rfl⟩ := h.labels q (hasState_of_mem_initial hq)
  obtain ⟨n, hn, -, hlabel⟩ := h'.labels _ (hasState_of_mem_initial hq)
  have hmn := LabelSupply.label_injective hlabel
  omega

end Combined

/-! ## Alphabets -/

lemma alphabet_connect {sources targets : List Label} :
    (A.connect sources targets).alphabet = A.alphabet := alphabet_addEdges

lemma mem_alphabet_copyInto_blank {cleared : Flags} :
    s ∈ (A.copyInto (blank .nondeterministic) cleared supply).automaton.alphabet ↔
      s ∈ A.alphabet ∨ s = epsilon := by
  rw [mem_alphabet_copyInto, mem_alphabet_blank, and_iff_left rfl]

lemma mem_alphabet_sideBySide {cleared : Flags} :
    s ∈ (A.sideBySide B cleared supply).alphabet ↔
      s ∈ B.alphabet ∨ s ∈ A.alphabet ∨ s = epsilon := by
  rw [sideBySide, mem_alphabet_copyInto, mem_alphabet_copyInto_blank]

lemma mem_alphabet_concat :
    s ∈ (A.concat B supply).1.alphabet ↔ s ∈ B.alphabet ∨ s ∈ A.alphabet ∨ s = epsilon := by
  rw [concat_eq, alphabet_connect, mem_alphabet_sideBySide]

lemma mem_alphabet_union :
    s ∈ (A.union B supply).1.alphabet ↔ s ∈ B.alphabet ∨ s ∈ A.alphabet ∨ s = epsilon := by
  rw [union_eq, alphabet_connect, alphabet_addState, mem_alphabet_sideBySide]

lemma mem_alphabet_iterate :
    s ∈ (A.iterate supply).1.alphabet ↔ s ∈ A.alphabet ∨ s = epsilon := by
  rw [iterate_eq, withRepeats, alphabet_connect, alphabet_addState, alphabet_addEdges, iterateCopy,
    mem_alphabet_copyInto_blank]

lemma mem_alphabet_ofSymbol : t ∈ (ofSymbol s).alphabet ↔ t = s ∨ t = epsilon := by
  rw [ofSymbol]
  split_ifs with hs
  · rw [ofEmptyWord, alphabet_addState, mem_alphabet_blank, and_iff_left rfl, hs, or_self]
  · rw [alphabet_addEdge, alphabet_addStates, mem_addSymbol, mem_alphabet_blank, and_iff_left rfl]

/-! ## Automata of symbols -/

lemma hasEnds_ofSymbol (s : Symbol) : (ofSymbol s).HasEnds := by
  by_cases hs : s = epsilon
  · rw [ofSymbol, if_pos hs]
    have hstate := get?_ofEmptyWord.2 ⟨rfl, rfl⟩
    exact ⟨⟨_, mem_initial.2 ⟨_, hstate, rfl⟩⟩, _, mem_final.2 ⟨_, hstate, rfl⟩⟩
  · exact ⟨⟨_, mem_initial.2 ⟨_, (get?_ofSymbol hs).2 (.inl ⟨rfl, rfl⟩), rfl⟩⟩,
      _, mem_final.2 ⟨_, (get?_ofSymbol hs).2 (.inr ⟨rfl, rfl⟩), rfl⟩⟩

lemma exists_label_of_hasState_ofSymbol (hq : (ofSymbol s).hasState q = true) :
    ∃ n, q = LabelSupply.label n := by
  obtain ⟨f, hf⟩ := hasState_iff.1 hq
  by_cases hs : s = epsilon
  · rw [ofSymbol, if_pos hs, get?_ofEmptyWord] at hf
    exact ⟨0, hf.1⟩
  · rcases (get?_ofSymbol hs).1 hf with ⟨hq, -⟩ | ⟨hq, -⟩
    · exact ⟨0, hq⟩
    · exact ⟨1, hq⟩

lemma symbol_ne_epsilon_of_mem_ofSymbol {e : Edge} (he : e ∈ (ofSymbol s).edges) :
    e.symbol ≠ epsilon := by
  by_cases hs : s = epsilon
  · rw [ofSymbol, if_pos hs, ofEmptyWord, edges_addState] at he
    exact absurd he (SortedSet.not_mem_empty e)
  · rw [(mem_edges_ofSymbol hs).1 he]
    exact hs

/-- Different symbols have different automata. -/
lemma ofSymbol_injective : Function.Injective ofSymbol := by
  intro s t h
  have hs : s ∈ (ofSymbol t).alphabet := h ▸ mem_alphabet_ofSymbol.2 (.inl rfl)
  have ht : t ∈ (ofSymbol s).alphabet := h ▸ mem_alphabet_ofSymbol.2 (.inl rfl)
  rcases mem_alphabet_ofSymbol.1 hs with hst | hs
  · exact hst
  · rcases mem_alphabet_ofSymbol.1 ht with hts | ht
    · exact hts.symm
    · exact hs.trans ht.symm

/-- **A combination is not the automaton of a symbol.** -/
theorem Combined.ne_ofSymbol (h : A.Combined before behind) (s : Symbol) : A ≠ ofSymbol s := by
  rintro rfl
  obtain ⟨e, he, hsilent⟩ := h.silent
  exact symbol_ne_epsilon_of_mem_ofSymbol he hsilent

end FiniteAutomata.Automaton
