import FiniteAutomata.Proofs.Automaton.Combinations

/-!
# The languages of combined automata

A run through a combination starts in a copy, follows renamed edges for some time, and leaves the
copy along an edge on `epsilon` from a state that was final.  `EmbedsIn` lists what has to be checked
of a copy for this to be all that can happen; the words from a state of the copy are then those of
the original, each followed by a word of what comes behind the copy.  For a repetition the same copy
comes behind the copy, which is why an edge may also lead back to the beginning.

* `EmbedsIn` — how a copy lies in an automaton.
* **`EmbedsIn.languageFrom_eq`** — the words from a state of a copy.
* **`language_concat`, `language_union`, `language_iterate`** — the languages of the combinations.
* `mem_language_ofSymbol` — the languages to begin with.
-/

namespace FiniteAutomata.Automaton

open Computability

variable {A B R : Automaton} {supply : LabelSupply} {f : Label → Label} {K : Language Char}
  {q r t x : Label} {s : Symbol} {u v w : List Char}

/-- A copy of `A` lies in `R`, its states renamed by `f`.  With `K` we name the words on which a run
can go on after it has come to a state that is final in `A`. -/
structure EmbedsIn (A R : Automaton) (f : Label → Label) (K : Language Char) : Prop where
  copied : ∀ e ∈ A.edges, e.rename f ∈ R.edges
  leaving : ∀ q s t, A.hasState q = true → ⟨f q, s, t⟩ ∈ R.edges →
    (∃ p, ⟨q, s, p⟩ ∈ A.edges ∧ t = f p) ∨
      s = epsilon ∧ q ∈ A.final ∧
        (R.languageFrom t ≤ K ∨ ∃ p ∈ A.initial, t = f p ∧ A.language * K ≤ K)
  stopping : ∀ q, A.hasState q = true → f q ∈ R.final → q ∈ A.final ∧ [] ∈ K
  continuing : ∀ q ∈ A.final, K ≤ R.languageFrom (f q)

lemma languageFrom_of_step (edge : ⟨q, s, r⟩ ∈ A.edges) (reads : Reads s u)
    (h : w ∈ A.languageFrom r) : u ++ w ∈ A.languageFrom q := by
  obtain ⟨t, ht, run⟩ := h
  exact ⟨t, ht, .step edge reads run⟩

lemma languageFrom_of_run (run : A.Run q u r) (h : w ∈ A.languageFrom r) :
    u ++ w ∈ A.languageFrom q := by
  obtain ⟨t, ht, rest⟩ := h
  exact ⟨t, ht, run.trans rest⟩

lemma nil_mem_languageFrom (h : q ∈ A.final) : [] ∈ A.languageFrom q := ⟨q, h, .refl q⟩

lemma mem_language_mul : w ∈ A.language * K ↔ ∃ q ∈ A.initial, w ∈ A.languageFrom q * K := by
  constructor
  · intro h
    obtain ⟨a, ⟨q, hq, ha⟩, b, hb, rfl⟩ := Language.mem_mul.1 h
    exact ⟨q, hq, Language.mem_mul.2 ⟨a, ha, b, hb, rfl⟩⟩
  · rintro ⟨q, hq, h⟩
    obtain ⟨a, ha, b, hb, rfl⟩ := Language.mem_mul.1 h
    exact Language.mem_mul.2 ⟨a, ⟨q, hq, ha⟩, b, hb, rfl⟩

/-- A run of the original can be followed in the copy. -/
lemma Run.rename (hcopied : ∀ e ∈ A.edges, e.rename f ∈ R.edges) (run : A.Run q w t) :
    R.Run (f q) w (f t) := by
  induction run with
  | refl => exact .refl _
  | step edge reads _ ih => exact .step (hcopied _ edge) reads ih

/-- **The words from a state of a copy** are those of the original, followed by what comes behind
the copy. -/
theorem EmbedsIn.languageFrom_eq (emb : A.EmbedsIn R f K) (hq : A.hasState q = true) :
    R.languageFrom (f q) = A.languageFrom q * K := by
  refine le_antisymm ?_ ?_
  · rintro w ⟨t, ht, run⟩
    -- along the run, with the invariant that it is at the copy of some state
    generalize hx : f q = x at run
    induction run generalizing q with
    | refl =>
        subst hx
        obtain ⟨hfinal, hnil⟩ := emb.stopping q hq ht
        exact Language.mem_mul.2 ⟨[], nil_mem_languageFrom hfinal, [], hnil, rfl⟩
    | step edge reads rest ih =>
        subst hx
        rcases emb.leaving q _ _ hq edge with ⟨p, hp, rfl⟩ | ⟨rfl, hfinal, hexit⟩
        · have hstate : A.hasState p = true := (A.known _ hp).2
          obtain ⟨a, ha, b, hb, rfl⟩ := Language.mem_mul.1 (ih hstate ht rfl)
          rw [← List.append_assoc]
          exact Language.mem_mul.2 ⟨_, languageFrom_of_step hp reads ha, b, hb, rfl⟩
        · obtain rfl := reads.eq_nil
          refine Language.mem_mul.2 ⟨[], nil_mem_languageFrom hfinal, _, ?_, rfl⟩
          rcases hexit with hK | ⟨p, hp, rfl, hK⟩
          · exact hK ⟨_, ht, rest⟩
          · exact hK (mem_language_mul.2 ⟨p, hp, ih (hasState_of_mem_initial hp) ht rfl⟩)
  · intro w hw
    obtain ⟨a, ⟨t, ht, run⟩, b, hb, rfl⟩ := Language.mem_mul.1 hw
    exact languageFrom_of_run (run.rename emb.copied) (emb.continuing t ht hb)

/-- Nothing comes behind a copy that only its own edges leave and in which the same states are
final. -/
lemma embedsIn_one (copied : ∀ e ∈ A.edges, e.rename f ∈ R.edges)
    (leaving : ∀ q s t, A.hasState q = true → ⟨f q, s, t⟩ ∈ R.edges →
      ∃ p, ⟨q, s, p⟩ ∈ A.edges ∧ t = f p)
    (final : ∀ q, A.hasState q = true → (f q ∈ R.final ↔ q ∈ A.final)) :
    A.EmbedsIn R f 1 where
  copied := copied
  leaving q s t hq edge := .inl (leaving q s t hq edge)
  stopping q hq h := ⟨(final q hq).1 h, Language.nil_mem_one⟩
  continuing q hq := by
    rintro w rfl
    exact nil_mem_languageFrom ((final q (hasState_of_mem_final hq)).2 hq)

/-! ## Sequence -/

lemma mem_initial_concat :
    x ∈ (A.concat B supply).1.initial ↔ ∃ q ∈ A.initial, x = A.copyLabel supply q := by
  simp only [mem_initial, get?_concat]
  constructor
  · rintro ⟨f, ⟨q, g, hq, rfl, rfl⟩ | ⟨q, g, hq, rfl, rfl⟩, hf⟩
    · exact ⟨q, ⟨g, hq, by simpa [Flags.onlyFinal] using hf⟩, rfl⟩
    · simp [Flags.onlyInitial] at hf
  · rintro ⟨q, ⟨g, hq, hg⟩, rfl⟩
    exact ⟨_, .inl ⟨q, g, hq, rfl, rfl⟩, by simpa [Flags.onlyFinal] using hg⟩

lemma mem_final_concat :
    x ∈ (A.concat B supply).1.final ↔ ∃ q ∈ B.final, x = B.copyLabel (supply.after A) q := by
  simp only [mem_final, get?_concat]
  constructor
  · rintro ⟨f, ⟨q, g, hq, rfl, rfl⟩ | ⟨q, g, hq, rfl, rfl⟩, hf⟩
    · simp [Flags.onlyFinal] at hf
    · exact ⟨q, ⟨g, hq, by simpa [Flags.onlyInitial] using hf⟩, rfl⟩
  · rintro ⟨q, ⟨g, hq, hg⟩, rfl⟩
    exact ⟨_, .inr ⟨q, g, hq, rfl, rfl⟩, by simpa [Flags.onlyInitial] using hg⟩

lemma copyLabel_ne_after (hq : A.hasState q = true) (hr : B.hasState r = true) :
    A.copyLabel supply q ≠ B.copyLabel (supply.after A) r :=
  copyLabel_ne le_rfl hq hr

lemma embedsIn_concat_right :
    B.EmbedsIn (A.concat B supply).1 (B.copyLabel (supply.after A)) 1 := by
  refine embedsIn_one (fun e he => mem_edges_concat.2 (.inr (.inr ⟨e, he, rfl⟩))) ?_ ?_
  · intro q s t hq edge
    rcases mem_edges_concat.1 edge with ⟨p, hp, r, -, h⟩ | ⟨d, hd, h⟩ | ⟨d, hd, h⟩
    · exact absurd (Edge.mk.inj h).1.symm (copyLabel_ne_after (hasState_of_mem_final hp) hq)
    · exact absurd (Edge.mk.inj h).1.symm (copyLabel_ne_after (A.known d hd).1.1 hq)
    · exact exists_edge_of_rename hq hd h
  · intro q hq
    rw [mem_final_concat]
    constructor
    · rintro ⟨r, hr, heq⟩
      rwa [copyLabel_injective hq heq]
    · exact fun h => ⟨q, h, rfl⟩

lemma languageFrom_concat_right (hq : B.hasState q = true) :
    (A.concat B supply).1.languageFrom (B.copyLabel (supply.after A) q) = B.languageFrom q := by
  rw [embedsIn_concat_right.languageFrom_eq hq, mul_one]

/-- The left copy of a sequence: the right one comes behind it. -/
lemma embedsIn_concat_left :
    A.EmbedsIn (A.concat B supply).1 (A.copyLabel supply) B.language where
  copied e he := mem_edges_concat.2 (.inr (.inl ⟨e, he, rfl⟩))
  leaving q s t hq edge := by
    rcases mem_edges_concat.1 edge with ⟨p, hp, r, hr, h⟩ | ⟨d, hd, h⟩ | ⟨d, hd, h⟩
    · obtain ⟨hsource, rfl, rfl⟩ := Edge.mk.inj h
      obtain rfl := copyLabel_injective hq hsource
      refine .inr ⟨rfl, hp, .inl ?_⟩
      rw [languageFrom_concat_right (hasState_of_mem_initial hr)]
      exact fun w hw => ⟨r, hr, hw⟩
    · exact .inl (exists_edge_of_rename hq hd h)
    · exact absurd (Edge.mk.inj h).1 (copyLabel_ne_after hq (B.known d hd).1.1)
  stopping q hq h := by
    obtain ⟨r, hr, heq⟩ := mem_final_concat.1 h
    exact absurd heq (copyLabel_ne_after hq (hasState_of_mem_final hr))
  continuing q hq := by
    rintro w ⟨r, hr, hw⟩
    refine languageFrom_of_step (u := []) (mem_edges_concat.2 (.inl ⟨q, hq, r, hr, rfl⟩)) .nothing ?_
    rwa [languageFrom_concat_right (hasState_of_mem_initial hr)]

/-- **The words of a sequence** are the words of the left followed by words of the right. -/
theorem language_concat : (A.concat B supply).1.language = A.language * B.language := by
  have hcopy : ∀ q ∈ A.initial, (A.concat B supply).1.languageFrom (A.copyLabel supply q) =
      A.languageFrom q * B.language :=
    fun q hq => embedsIn_concat_left.languageFrom_eq (hasState_of_mem_initial hq)
  ext w
  rw [mem_language_mul, mem_language]
  constructor
  · rintro ⟨x, hx, hw⟩
    obtain ⟨q, hq, rfl⟩ := mem_initial_concat.1 hx
    rw [hcopy q hq] at hw
    exact ⟨q, hq, hw⟩
  · rintro ⟨q, hq, hw⟩
    refine ⟨_, mem_initial_concat.2 ⟨q, hq, rfl⟩, ?_⟩
    rwa [hcopy q hq]

/-! ## Choice -/

lemma copyLabel_ne_unionEntry_left (hq : A.hasState q = true) :
    A.copyLabel supply q ≠ A.unionEntry B supply :=
  copyLabel_ne_label (Nat.le_add_right _ _) hq

lemma copyLabel_ne_unionEntry_right (hq : B.hasState q = true) :
    B.copyLabel (supply.after A) q ≠ A.unionEntry B supply :=
  copyLabel_ne_label le_rfl hq

lemma mem_initial_union : x ∈ (A.union B supply).1.initial ↔ x = A.unionEntry B supply := by
  simp only [mem_initial, get?_union]
  constructor
  · rintro ⟨f, ⟨rfl, rfl⟩ | ⟨q, g, hq, rfl, rfl⟩ | ⟨q, g, hq, rfl, rfl⟩, hf⟩
    · rfl
    · simp [Flags.onlyInitial] at hf
    · simp [Flags.onlyInitial] at hf
  · rintro rfl
    exact ⟨_, .inl ⟨rfl, rfl⟩, rfl⟩

lemma mem_final_union :
    x ∈ (A.union B supply).1.final ↔
      (∃ q ∈ A.final, x = A.copyLabel supply q) ∨
        ∃ q ∈ B.final, x = B.copyLabel (supply.after A) q := by
  simp only [mem_final, get?_union]
  constructor
  · rintro ⟨f, ⟨rfl, rfl⟩ | ⟨q, g, hq, rfl, rfl⟩ | ⟨q, g, hq, rfl, rfl⟩, hf⟩
    · simp [Flags.onlyInitial] at hf
    · exact .inl ⟨q, ⟨g, hq, by simpa [Flags.onlyInitial] using hf⟩, rfl⟩
    · exact .inr ⟨q, ⟨g, hq, by simpa [Flags.onlyInitial] using hf⟩, rfl⟩
  · rintro (⟨q, ⟨g, hq, hg⟩, rfl⟩ | ⟨q, ⟨g, hq, hg⟩, rfl⟩)
    · exact ⟨_, .inr (.inl ⟨q, g, hq, rfl, rfl⟩), by simpa [Flags.onlyInitial] using hg⟩
    · exact ⟨_, .inr (.inr ⟨q, g, hq, rfl, rfl⟩), by simpa [Flags.onlyInitial] using hg⟩

lemma embedsIn_union_left : A.EmbedsIn (A.union B supply).1 (A.copyLabel supply) 1 := by
  refine embedsIn_one (fun e he => mem_edges_union.2 (.inr (.inr (.inl ⟨e, he, rfl⟩)))) ?_ ?_
  · intro q s t hq edge
    rcases mem_edges_union.1 edge with ⟨p, -, h⟩ | ⟨p, -, h⟩ | ⟨d, hd, h⟩ | ⟨d, hd, h⟩
    · exact absurd (Edge.mk.inj h).1 (copyLabel_ne_unionEntry_left hq)
    · exact absurd (Edge.mk.inj h).1 (copyLabel_ne_unionEntry_left hq)
    · exact exists_edge_of_rename hq hd h
    · exact absurd (Edge.mk.inj h).1 (copyLabel_ne_after hq (B.known d hd).1.1)
  · intro q hq
    rw [mem_final_union]
    constructor
    · rintro (⟨r, hr, heq⟩ | ⟨r, hr, heq⟩)
      · rwa [copyLabel_injective hq heq]
      · exact absurd heq (copyLabel_ne_after hq (hasState_of_mem_final hr))
    · exact fun h => .inl ⟨q, h, rfl⟩

lemma embedsIn_union_right :
    B.EmbedsIn (A.union B supply).1 (B.copyLabel (supply.after A)) 1 := by
  refine embedsIn_one (fun e he => mem_edges_union.2 (.inr (.inr (.inr ⟨e, he, rfl⟩)))) ?_ ?_
  · intro q s t hq edge
    rcases mem_edges_union.1 edge with ⟨p, -, h⟩ | ⟨p, -, h⟩ | ⟨d, hd, h⟩ | ⟨d, hd, h⟩
    · exact absurd (Edge.mk.inj h).1 (copyLabel_ne_unionEntry_right hq)
    · exact absurd (Edge.mk.inj h).1 (copyLabel_ne_unionEntry_right hq)
    · exact absurd (Edge.mk.inj h).1.symm (copyLabel_ne_after (A.known d hd).1.1 hq)
    · exact exists_edge_of_rename hq hd h
  · intro q hq
    rw [mem_final_union]
    constructor
    · rintro (⟨r, hr, heq⟩ | ⟨r, hr, heq⟩)
      · exact absurd heq.symm (copyLabel_ne_after (hasState_of_mem_final hr) hq)
      · rwa [copyLabel_injective hq heq]
    · exact fun h => .inr ⟨q, h, rfl⟩

/-- The state that a choice begins with is not final, so each run from it enters one of the copies. -/
lemma mem_languageFrom_unionEntry :
    w ∈ (A.union B supply).1.languageFrom (A.unionEntry B supply) ↔
      w ∈ A.language ∨ w ∈ B.language := by
  constructor
  · rintro ⟨t, ht, run⟩
    generalize hx : A.unionEntry B supply = x at run
    cases run with
    | refl =>
        rcases mem_final_union.1 ht with ⟨q, hq, h⟩ | ⟨q, hq, h⟩
        · exact absurd (hx.trans h).symm (copyLabel_ne_unionEntry_left (hasState_of_mem_final hq))
        · exact absurd (hx.trans h).symm (copyLabel_ne_unionEntry_right (hasState_of_mem_final hq))
    | step edge reads rest =>
        subst hx
        rcases mem_edges_union.1 edge with ⟨p, hp, h⟩ | ⟨p, hp, h⟩ | ⟨d, hd, h⟩ | ⟨d, hd, h⟩
        · obtain ⟨-, rfl, rfl⟩ := Edge.mk.inj h
          obtain rfl := reads.eq_nil
          refine .inl ⟨p, hp, ?_⟩
          rw [← mul_one (A.languageFrom p),
            ← embedsIn_union_left.languageFrom_eq (hasState_of_mem_initial hp)]
          exact ⟨t, ht, rest⟩
        · obtain ⟨-, rfl, rfl⟩ := Edge.mk.inj h
          obtain rfl := reads.eq_nil
          refine .inr ⟨p, hp, ?_⟩
          rw [← mul_one (B.languageFrom p),
            ← embedsIn_union_right.languageFrom_eq (hasState_of_mem_initial hp)]
          exact ⟨t, ht, rest⟩
        · exact absurd (Edge.mk.inj h).1.symm (copyLabel_ne_unionEntry_left (A.known d hd).1.1)
        · exact absurd (Edge.mk.inj h).1.symm (copyLabel_ne_unionEntry_right (B.known d hd).1.1)
  · rintro (⟨q, hq, hw⟩ | ⟨q, hq, hw⟩)
    · refine languageFrom_of_step (u := []) (mem_edges_union.2 (.inl ⟨q, hq, rfl⟩)) .nothing ?_
      rwa [embedsIn_union_left.languageFrom_eq (hasState_of_mem_initial hq), mul_one]
    · refine languageFrom_of_step (u := []) (mem_edges_union.2 (.inr (.inl ⟨q, hq, rfl⟩)))
        .nothing ?_
      rwa [embedsIn_union_right.languageFrom_eq (hasState_of_mem_initial hq), mul_one]

/-- **The words of a choice** are the words of either. -/
theorem language_union : (A.union B supply).1.language = A.language + B.language := by
  ext w
  rw [Language.mem_add, ← @mem_languageFrom_unionEntry A B supply, mem_language]
  simp only [mem_initial_union, exists_eq_left]

/-! ## Repetition -/

lemma copyLabel_ne_iterateEntry (hq : A.hasState q = true) :
    A.copyLabel supply q ≠ A.iterateEntry supply :=
  copyLabel_ne_label le_rfl hq

lemma mem_initial_iterate : x ∈ (A.iterate supply).1.initial ↔ x = A.iterateEntry supply := by
  simp only [mem_initial, get?_iterate]
  constructor
  · rintro ⟨f, ⟨rfl, rfl⟩ | ⟨q, g, hq, rfl, rfl⟩, hf⟩
    · rfl
    · simp [Flags.onlyInitial] at hf
  · rintro rfl
    exact ⟨_, .inl ⟨rfl, rfl⟩, rfl⟩

lemma mem_final_iterate :
    x ∈ (A.iterate supply).1.final ↔
      x = A.iterateEntry supply ∨ ∃ q ∈ A.final, x = A.copyLabel supply q := by
  simp only [mem_final, get?_iterate]
  constructor
  · rintro ⟨f, ⟨rfl, rfl⟩ | ⟨q, g, hq, rfl, rfl⟩, hf⟩
    · exact .inl rfl
    · exact .inr ⟨q, ⟨g, hq, by simpa [Flags.onlyInitial] using hf⟩, rfl⟩
  · rintro (rfl | ⟨q, ⟨g, hq, hg⟩, rfl⟩)
    · exact ⟨_, .inl ⟨rfl, rfl⟩, rfl⟩
    · exact ⟨_, .inr ⟨q, g, hq, rfl, rfl⟩, by simpa [Flags.onlyInitial] using hg⟩

/-- From what was final a run can go through the copy any number of times.  Where the edge back to
the beginning is left out, because it would lead from a state to itself, the run is there already. -/
lemma kstar_le_languageFrom_iterate (hq : q ∈ A.final) :
    A.language∗ ≤ (A.iterate supply).1.languageFrom (A.copyLabel supply q) := by
  intro w hw
  obtain ⟨words, rfl, hwords⟩ := Language.mem_kstar.1 hw
  clear hw
  induction words generalizing q with
  | nil => exact nil_mem_languageFrom (mem_final_iterate.2 (.inr ⟨q, hq, rfl⟩))
  | cons word words ih =>
      rw [List.forall_mem_cons] at hwords
      obtain ⟨⟨i, hi, r, hr, run⟩, hrest⟩ := hwords
      have hround : word ++ words.flatten ∈
          (A.iterate supply).1.languageFrom (A.copyLabel supply i) := by
        refine languageFrom_of_run (run.rename fun e he => ?_) (ih hr hrest)
        exact mem_edges_iterate.2 (.inr (.inr ⟨e, he, rfl⟩))
      rw [List.flatten_cons]
      by_cases hloop : A.copyLabel supply i = A.copyLabel supply q
      · rwa [← hloop]
      · have edge := mem_edges_iterate.2 (.inr (.inl ⟨q, hq, i, hi, hloop, rfl⟩))
        exact languageFrom_of_step (u := []) edge .nothing hround

/-- The copy in a repetition: behind it come more rounds through the same copy. -/
lemma embedsIn_iterate : A.EmbedsIn (A.iterate supply).1 (A.copyLabel supply) A.language∗ where
  copied e he := mem_edges_iterate.2 (.inr (.inr ⟨e, he, rfl⟩))
  leaving q s t hq edge := by
    rcases mem_edges_iterate.1 edge with ⟨p, -, h⟩ | ⟨p, hp, i, hi, -, h⟩ | ⟨d, hd, h⟩
    · exact absurd (Edge.mk.inj h).1 (copyLabel_ne_iterateEntry hq)
    · obtain ⟨hsource, rfl, rfl⟩ := Edge.mk.inj h
      obtain rfl := copyLabel_injective hq hsource
      exact .inr ⟨rfl, hp, .inr ⟨i, hi, rfl, mul_kstar_le_kstar⟩⟩
    · exact .inl (exists_edge_of_rename hq hd h)
  stopping q hq h := by
    rcases mem_final_iterate.1 h with heq | ⟨r, hr, heq⟩
    · exact absurd heq (copyLabel_ne_iterateEntry hq)
    · obtain rfl := copyLabel_injective hq heq
      exact ⟨hr, Language.nil_mem_kstar _⟩
  continuing q hq := kstar_le_languageFrom_iterate hq

/-- The state that a repetition begins with is final itself; any other run from it enters the
copy. -/
lemma mem_languageFrom_iterateEntry :
    w ∈ (A.iterate supply).1.languageFrom (A.iterateEntry supply) ↔
      w = [] ∨ w ∈ A.language * A.language∗ := by
  have hcopy : ∀ q ∈ A.initial, (A.iterate supply).1.languageFrom (A.copyLabel supply q) =
      A.languageFrom q * A.language∗ :=
    fun q hq => embedsIn_iterate.languageFrom_eq (hasState_of_mem_initial hq)
  constructor
  · rintro ⟨t, ht, run⟩
    generalize hx : A.iterateEntry supply = x at run
    cases run with
    | refl => exact .inl rfl
    | step edge reads rest =>
        subst hx
        right
        rcases mem_edges_iterate.1 edge with ⟨p, hp, h⟩ | ⟨p, hp, i, -, -, h⟩ | ⟨d, hd, h⟩
        · obtain ⟨-, rfl, rfl⟩ := Edge.mk.inj h
          obtain rfl := reads.eq_nil
          refine mem_language_mul.2 ⟨p, hp, ?_⟩
          rw [← hcopy p hp]
          exact ⟨t, ht, rest⟩
        · exact absurd (Edge.mk.inj h).1.symm (copyLabel_ne_iterateEntry (hasState_of_mem_final hp))
        · exact absurd (Edge.mk.inj h).1.symm (copyLabel_ne_iterateEntry (A.known d hd).1.1)
  · rintro (rfl | hw)
    · exact nil_mem_languageFrom (mem_final_iterate.2 (.inl rfl))
    · obtain ⟨p, hp, hw⟩ := mem_language_mul.1 hw
      refine languageFrom_of_step (u := []) (mem_edges_iterate.2 (.inl ⟨p, hp, rfl⟩)) .nothing ?_
      rwa [hcopy p hp]

/-- **The words of a repetition** are put together from any number of words of the operand. -/
theorem language_iterate : (A.iterate supply).1.language = A.language∗ := by
  ext w
  rw [← Language.one_add_self_mul_kstar_eq_kstar, Language.mem_add, Language.mem_one,
    ← @mem_languageFrom_iterateEntry A supply, mem_language]
  simp only [mem_initial_iterate, exists_eq_left]

/-! ## Automata to begin with -/

lemma get?_ofEmptyWord {k : Flags} :
    ofEmptyWord.states.get? x = some k ↔ x = LabelSupply.label 0 ∧ k = .both := by
  rw [ofEmptyWord, get?_addState]
  by_cases hx : x = LabelSupply.label 0
  · simp [hx, blank, eq_comm]
  · simp [hx, blank]

lemma language_ofEmptyWord : ofEmptyWord.language = 1 := by
  have hinitial : ∀ x, x ∈ ofEmptyWord.initial ↔ x = LabelSupply.label 0 := by
    intro x
    simp [mem_initial, get?_ofEmptyWord, Flags.both]
  have hfinal : ∀ x, x ∈ ofEmptyWord.final ↔ x = LabelSupply.label 0 := by
    intro x
    simp [mem_final, get?_ofEmptyWord, Flags.both]
  ext w
  rw [Language.mem_one]
  constructor
  · rintro ⟨q, -, t, -, run⟩
    cases run with
    | refl => rfl
    | step edge => exact absurd edge (by simp [ofEmptyWord, blank])
  · rintro rfl
    exact ⟨_, (hinitial _).2 rfl, nil_mem_languageFrom ((hfinal _).2 rfl)⟩

lemma label_zero_ne_one : LabelSupply.label 0 ≠ LabelSupply.label 1 := by
  intro h
  exact absurd (LabelSupply.label_injective h) (by decide)

lemma get?_ofSymbol {k : Flags} (hs : s ≠ epsilon) :
    (ofSymbol s).states.get? x = some k ↔
      x = LabelSupply.label 0 ∧ k = .onlyInitial ∨ x = LabelSupply.label 1 ∧ k = .onlyFinal := by
  have hblank : ((blank .nondeterministic).addSymbol s).states.get? x = none := rfl
  rw [ofSymbol, if_neg hs, states_addEdge, get?_addStates, hblank, Option.none_or,
    lookup_eq_some_iff_mem (by simpa using label_zero_ne_one)]
  simp

lemma mem_edges_ofSymbol {e : Edge} (hs : s ≠ epsilon) :
    e ∈ (ofSymbol s).edges ↔ e = ⟨LabelSupply.label 0, s, LabelSupply.label 1⟩ := by
  have hknown : (((blank .nondeterministic).addSymbol s).addStates
      [(LabelSupply.label 0, .onlyInitial), (LabelSupply.label 1, .onlyFinal)]).knows
      ⟨LabelSupply.label 0, s, LabelSupply.label 1⟩ = true := by
    refine knows_iff.2 ⟨?_, ?_, ?_⟩
    · refine hasState_iff.2 ⟨.onlyInitial, ?_⟩
      simpa [ofSymbol, hs] using (get?_ofSymbol hs).2 (.inl ⟨rfl, rfl⟩)
    · rw [alphabet_addStates]
      exact mem_addSymbol.2 (.inl rfl)
    · refine hasState_iff.2 ⟨.onlyFinal, ?_⟩
      simpa [ofSymbol, hs] using (get?_ofSymbol hs).2 (.inr ⟨rfl, rfl⟩)
  rw [ofSymbol, if_neg hs, mem_addEdge, edges_addStates, edges_addSymbol]
  constructor
  · rintro (⟨h, -⟩ | h)
    · exact h
    · exact absurd h (SortedSet.not_mem_empty e)
  · rintro rfl
    exact .inl ⟨rfl, hknown⟩

/-- **The words of a symbol** are what is read along an edge with it. -/
theorem mem_language_ofSymbol : w ∈ (ofSymbol s).language ↔ Reads s w := by
  by_cases hs : s = epsilon
  · subst hs
    rw [ofSymbol, if_pos rfl, language_ofEmptyWord, Language.mem_one]
    constructor
    · rintro rfl
      exact .nothing
    · exact Reads.eq_nil
  · have hinitial : ∀ x, x ∈ (ofSymbol s).initial ↔ x = LabelSupply.label 0 := by
      intro x
      simp only [mem_initial, get?_ofSymbol hs]
      constructor
      · rintro ⟨k, ⟨rfl, -⟩ | ⟨-, rfl⟩, hk⟩
        · rfl
        · cases hk
      · rintro rfl
        exact ⟨_, .inl ⟨rfl, rfl⟩, rfl⟩
    have hfinal : ∀ x, x ∈ (ofSymbol s).final ↔ x = LabelSupply.label 1 := by
      intro x
      simp only [mem_final, get?_ofSymbol hs]
      constructor
      · rintro ⟨k, ⟨-, rfl⟩ | ⟨rfl, -⟩, hk⟩
        · cases hk
        · rfl
      · rintro rfl
        exact ⟨_, .inr ⟨rfl, rfl⟩, rfl⟩
    constructor
    · rintro ⟨q, hq, t, ht, run⟩
      obtain rfl := (hinitial q).1 hq
      generalize hx : LabelSupply.label 0 = x at run
      cases run with
      | refl => exact absurd (hx.trans ((hfinal _).1 ht)) label_zero_ne_one
      | step edge reads rest =>
          obtain ⟨-, rfl, rfl⟩ := Edge.mk.inj ((mem_edges_ofSymbol hs).1 edge)
          generalize hy : LabelSupply.label 1 = y at rest
          cases rest with
          | refl =>
              rw [List.append_nil]
              exact reads
          | step edge =>
              obtain ⟨hsource, -, -⟩ := Edge.mk.inj ((mem_edges_ofSymbol hs).1 edge)
              exact absurd (hy.trans hsource).symm label_zero_ne_one
    · intro reads
      refine ⟨_, (hinitial _).2 rfl, _, (hfinal _).2 rfl, ?_⟩
      have run := Run.step ((mem_edges_ofSymbol hs).2 rfl) reads (.refl _)
      rwa [List.append_nil] at run

end FiniteAutomata.Automaton
