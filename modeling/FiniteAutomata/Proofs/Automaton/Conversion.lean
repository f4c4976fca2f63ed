import FiniteAutomata.Proofs.Automaton.RoundTrip

/-!
# Files that are made deterministic

An automaton is read from a file, made deterministic, and written to a file again.  The labels of the
result are labels of states one behind the other, and so are legible; only two things can come between.
Without initial states the label is empty, and the line of its state is read as another label without
marks; nothing is accepted before or after.  And an initial state may have a comma in its label, since
states have lines of their own; then an edge that leaves the starting set cannot be read.

* `walks_congr` — what a walk depends on.
* `linesKept_determinize` — the reader finds all lines.
* `comma_mem_setLabel_iff`, `forall_edges_determinize_iff` — commas in labels, and in the lines of edges.
* **`read_write_determinize_of_read`** — the automata for which the conversion succeeds.
-/

namespace FiniteAutomata.Automaton

open List (Forall₂)
open Relation

variable {A B : Automaton} {S : StateSet} {q t : Label} {f : Flags} {s : Symbol} {e : Edge} {kind : Kind}

/-! ## What a walk depends on -/

/-- A walk depends on the marks of states and on the edges with single characters. -/
lemma walks_congr (hstates : ∀ q, A.states.get? q = B.states.get? q)
    (hedges : ∀ q c t, ⟨q, String.singleton c, t⟩ ∈ A.edges ↔ ⟨q, String.singleton c, t⟩ ∈ B.edges)
    (word : String) : A.walks word = B.walks word := by
  have hmarks : A.states = B.states := SortedMap.ext hstates
  have hnext : ∀ q c, A.next? q c = B.next? q c := by
    intro q c
    refine Option.ext fun t => ?_
    simp only [next?_eq_some_iff, hedges]
  have hwalk : ∀ w q, A.walk? q w = B.walk? q w := by
    intro w
    induction w with
    | nil => exact fun q => rfl
    | cons c w ih =>
        intro q
        simp only [walk?, hnext, ih]
  have hinitial : A.uniqueInitial? = B.uniqueInitial? := by
    rw [uniqueInitial?, uniqueInitial?, initial, initial, hmarks]
  have hfinal : A.isFinal = B.isFinal := by
    funext q
    rw [isFinal, isFinal, flags?, flags?, hmarks]
  simp only [walks, hinitial, hwalk, hfinal]

/-- Nothing is read by a walk without an initial state to begin in. -/
lemma walks_eq_false (h : ∀ q, q ∉ A.initial) (word : String) : A.walks word = false := by
  rw [← Bool.not_eq_true, walks_iff]
  rintro ⟨q, hq, -⟩
  exact h q ((hq q).2 rfl)

lemma accepts_eq_false (h : ∀ q, q ∉ A.initial) (word : String) : A.accepts word = false := by
  rw [← Bool.not_eq_true, accepts_iff_mem_language, mem_language]
  rintro ⟨q, hq, -⟩
  exact h q hq

/-! ## The lines of the deterministic automaton -/

/-- A label holds no white space if the labels that it is put together from do not. -/
lemma not_isBlank_setLabel (h : A.Legible) (hS : A.Discovered S) :
    ∀ c ∈ (A.setLabel S).toList, Text.isBlank c = false := by
  intro c hc
  rcases exists_of_mem_setLabel hS hc with rfl | ⟨q, hq, hc⟩
  · rfl
  · exact (h.labels q hq).2 c hc

/-- A label is empty only if there are no initial states. -/
lemma setLabel_eq_empty_cases (h : A.Legible) (hS : A.Discovered S) :
    A.setLabel S ≠ "" ∨ A.setLabel S = "" ∧ A.setFlags S = .onlyInitial ∧ ∀ q, q ∉ A.initial := by
  by_cases hlabel : A.setLabel S = ""
  · have hnone : ∀ q, q ∉ S := fun q hq =>
      setLabel_ne_empty hS (fun q hq => (h.labels q hq).1) hq hlabel
    have hinitial : ∀ q, q ∉ A.initial := by
      intro q hq
      obtain ⟨p, hp⟩ := hS.exists_mem ⟨q, hq⟩
      exact hnone p hp
    have hstart : S = A.start := by
      cases hS with
      | start => rfl
      | move _ hmove =>
          obtain ⟨-, -, p, hp⟩ := mem_successors.1 hmove
          exact absurd hp (hnone p)
    have hfinal : A.hasFinal S = false := by
      rw [← Bool.not_eq_true, hasFinal_iff]
      rintro ⟨q, hq, -⟩
      exact hnone q hq
    refine .inr ⟨hlabel, ?_, hinitial⟩
    rw [setFlags, hfinal, hstart, beq_self_eq_true]
    rfl
  · exact .inl hlabel

/-- **The reader finds all lines of the deterministic automaton.** -/
theorem linesKept_determinize (h : A.Legible) : A.determinize.LinesKept where
  states := by
    rintro ⟨q, f⟩ hstate
    obtain ⟨S, hS, rfl, rfl⟩ := get?_determinize.1 (mem_states_toList.1 hstate)
    have hblank := not_isBlank_setLabel h hS
    refine ⟨not_mem_stateLine (not_mem_feed_of_not_blank hblank), ?_⟩
    rcases setLabel_eq_empty_cases h hS with hne | ⟨hlabel, hflags, -⟩
    · exact endsFilled_stateLine (endsFilled_of_not_blank hne hblank)
    · rw [hlabel, hflags]
      exact ⟨'I', rfl, rfl⟩
  letters := by
    rw [letters_determinize]
    exact h.letters
  edges e he := by
    obtain ⟨S, s, T, hS, hmove, rfl⟩ := mem_edges_determinize.1 he
    have hT := hS.move hmove
    obtain ⟨hletter, -, p, hp⟩ := mem_successors.1 hmove
    have hne : A.setLabel T ≠ "" := setLabel_ne_empty hT (fun q hq => (h.labels q hq).1) hp
    exact ⟨not_mem_edgeLine (not_mem_feed_of_not_blank (not_isBlank_setLabel h hS))
      (h.letters s hletter).1 (not_mem_feed_of_not_blank (not_isBlank_setLabel h hT)),
      endsFilled_edgeLine (endsFilled_of_not_blank hne (not_isBlank_setLabel h hT))⟩

/-! ## Commas -/

/-- A state that is found is the target of an edge, unless it was there from the beginning. -/
lemma exists_target_of_mem_closure (hq : q ∈ A.closure S) : q ∈ S ∨ ∃ e ∈ A.edges, e.target = q := by
  obtain ⟨p, hp, path⟩ := mem_closure.1 hq
  cases path with
  | refl => exact .inl hp
  | tail _ edge => exact .inr ⟨_, edge, rfl⟩

lemma exists_target_of_mem_advance (hq : q ∈ A.advance S s) : ∃ e ∈ A.edges, e.target = q := by
  rcases exists_target_of_mem_closure hq with hq | htarget
  · obtain ⟨p, -, edge⟩ := mem_step.1 hq
    exact ⟨_, edge, rfl⟩
  · exact htarget

/-- A move from a set begins with an edge from one of its members. -/
lemma exists_edge_of_mem_successors {T : StateSet} (hmove : (s, T) ∈ A.successors S) :
    ∃ e ∈ A.edges, e.source ∈ S ∧ e.symbol = s := by
  obtain ⟨-, rfl, t, ht⟩ := mem_successors.1 hmove
  obtain ⟨p, hp, -⟩ := mem_closure.1 ht
  obtain ⟨q, hq, edge⟩ := mem_step.1 hp
  exact ⟨_, edge, hq, rfl⟩

lemma not_mem_comma_of_move {T : StateSet} (h : A.Legible) (hS : A.Discovered S)
    (hmove : (s, T) ∈ A.successors S) : ',' ∉ (A.setLabel T).toList := by
  rw [mem_toList_setLabel_iff (hS.move hmove) (by decide)]
  rintro ⟨q, hq, hcomma⟩
  obtain ⟨-, rfl, -⟩ := mem_successors.1 hmove
  obtain ⟨e, he, rfl⟩ := exists_target_of_mem_advance hq
  exact (h.edges e he).2.2 hcomma

/-- **Only the label of the starting set can have a comma in it**, and only from an initial state. -/
theorem comma_mem_setLabel_iff (h : A.Legible) (hS : A.Discovered S) :
    ',' ∈ (A.setLabel S).toList ↔ S = A.start ∧ ∃ q ∈ A.initial, ',' ∈ q.toList := by
  constructor
  · intro hcomma
    cases hS with
    | start =>
        obtain ⟨q, hq, hcomma⟩ := (mem_toList_setLabel_iff .start (by decide)).1 hcomma
        rcases exists_target_of_mem_closure hq with hinitial | ⟨e, he, rfl⟩
        · exact ⟨rfl, q, hinitial, hcomma⟩
        · exact absurd hcomma (h.edges e he).2.2
    | move hS hmove => exact absurd hcomma (not_mem_comma_of_move h hS hmove)
  · rintro ⟨rfl, q, hq, hcomma⟩
    exact (mem_toList_setLabel_iff .start (by decide)).2 ⟨q, subset_closure hq, hcomma⟩

/-- No initial state has a comma in its label, or no edge with a letter leaves a state in which runs can
begin. -/
def StartsLegible (A : Automaton) : Prop :=
  (∀ q ∈ A.initial, ',' ∉ q.toList) ∨ ∀ e ∈ A.edges, e.source ∈ A.start → e.symbol = epsilon

/-- **When the lines of all edges can be read.** -/
theorem forall_edges_determinize_iff (h : A.Legible) :
    (∀ e ∈ A.determinize.edges, ',' ∉ e.source.toList ∧ ',' ∉ e.symbol.toList ∧
      ',' ∉ e.target.toList) ↔ A.StartsLegible := by
  constructor
  · intro hedges
    refine or_iff_not_imp_left.2 fun hcomma e he hsource => ?_
    by_contra hsymbol
    push Not at hcomma
    have htarget : e.target ∈ A.advance A.start e.symbol :=
      subset_closure (mem_step.2 ⟨e.source, hsource, he⟩)
    have hletter : e.symbol ∈ A.letters :=
      mem_letters.2 ⟨(knows_iff.1 (knows_of_mem he)).2.1, hsymbol⟩
    have hmove := mem_successors.2 ⟨hletter, rfl, e.target, htarget⟩
    have hedge := mem_edges_determinize.2 ⟨A.start, e.symbol, _, .start, hmove, rfl⟩
    exact (hedges _ hedge).1 ((comma_mem_setLabel_iff h .start).2 ⟨rfl, hcomma⟩)
  · intro hstarts e he
    obtain ⟨S, s, T, hS, hmove, rfl⟩ := mem_edges_determinize.1 he
    obtain ⟨d, hd, hsource, rfl⟩ := exists_edge_of_mem_successors hmove
    refine ⟨fun hcomma => ?_, (h.edges d hd).2.1, not_mem_comma_of_move h hS hmove⟩
    obtain ⟨rfl, q, hq, hcomma⟩ := (comma_mem_setLabel_iff h hS).1 hcomma
    rcases hstarts with hlabels | hsilent
    · exact hlabels q hq hcomma
    · exact (mem_letters.1 (mem_successors.1 hmove).1).2 (hsilent d hd hsource)

/-! ## Reading the deterministic automaton -/

/-- The states as they are read. -/
def statesRead (A : Automaton) : List (Label × Flags) :=
  A.determinize.states.toList.map fun s => if s.1 = "" then ("I", .empty) else s

lemma parseState_determinize (h : A.Legible) (hstate : A.determinize.states.get? q = some f) :
    parseState (stateLine (q, f)) = some (if q = "" then ("I", .empty) else (q, f)) := by
  obtain ⟨S, hS, rfl, rfl⟩ := get?_determinize.1 hstate
  rcases setLabel_eq_empty_cases h hS with hne | ⟨hlabel, hflags, -⟩
  · rw [if_neg hne, parseState_stateLine hne (not_isBlank_setLabel h hS)]
  · rw [if_pos hlabel, hlabel, hflags]
    rfl

/-- What is read, if all lines can be read. -/
def rereadDeterminized (A : Automaton) : Automaton :=
  assemble .deterministic A.statesRead (A.letters.toList.map withoutReturn) A.determinize.edges.toList

/-- **The text of the deterministic automaton is read if no edge has a comma too many.** -/
theorem exists_read_determinize_iff (h : A.Legible) (hfit : A.determinize.CountsFit) :
    (∃ warnings, read .deterministic (.ofString A.determinize.write) = .ok ⟨B, warnings⟩) ↔
      A.StartsLegible ∧ B = A.rereadDeterminized := by
  have hstates : ∀ {states : List (Label × Flags)},
      Forall₂ (fun s state => parseState (stateLine s) = some state) A.determinize.states.toList
        states ↔ states = A.statesRead := by
    intro states
    refine forall₂_iff_eq_map ?_
    rintro ⟨q, f⟩ hstate state
    rw [parseState_determinize h (mem_states_toList.1 hstate), Option.some.injEq, eq_comm]
  rw [exists_read_write_iff hfit (linesKept_determinize h), ← forall_edges_determinize_iff h]
  simp only [hstates, letters_determinize, parseEdge_edgeLine_iff]
  constructor
  · rintro ⟨_, edges, rfl, hedges, rfl⟩
    have hcommas : ∀ e ∈ A.determinize.edges, ',' ∉ e.source.toList ∧ ',' ∉ e.symbol.toList ∧
        ',' ∉ e.target.toList := by
      intro e he
      obtain ⟨d, -, -, hd⟩ := exists_of_mem_right hedges.flip he
      exact hd
    refine ⟨hcommas, ?_⟩
    rw [(forall₂_iff_eq_map (g := id) fun e he d => by simp [hcommas e he]).1 hedges, List.map_id]
    rfl
  · rintro ⟨hcommas, rfl⟩
    refine ⟨_, A.determinize.edges.toList, rfl, List.forall₂_same.2 fun e he => ?_, rfl⟩
    exact ⟨rfl, hcommas e he⟩

/-! ## What has been read -/

lemma mem_edges_of_mem_rereadDeterminized (he : e ∈ A.rereadDeterminized.edges) :
    e ∈ A.determinize.edges := by
  rw [rereadDeterminized, mem_edges_assemble] at he
  exact he.1

lemma isDeterministic_rereadDeterminized (A : Automaton) :
    A.rereadDeterminized.isDeterministic = true := by
  have hdet := isDeterministic_iff.1 (isDeterministic_determinize A)
  refine isDeterministic_iff.2 fun q s t ht => ?_
  obtain ⟨hsymbol, hunique⟩ := hdet q s t (mem_edges_of_mem_rereadDeterminized ht)
  exact ⟨hsymbol, fun t' ht' => hunique t' (mem_edges_of_mem_rereadDeterminized ht')⟩

/-- If there is an initial state, all states are read as they are written. -/
lemma statesRead_eq (h : A.Legible) (hinitial : ∃ q, q ∈ A.initial) :
    A.statesRead = A.determinize.states.toList := by
  refine (List.map_congr_left fun s hs => ?_).trans (List.map_id _)
  obtain ⟨q, f⟩ := s
  obtain ⟨S, hS, rfl, rfl⟩ := get?_determinize.1 (mem_states_toList.1 hs)
  rcases setLabel_eq_empty_cases h hS with hne | ⟨-, -, hnone⟩
  · exact if_neg hne
  · obtain ⟨q, hq⟩ := hinitial
    exact absurd hq (hnone q)

/-- If there is none, the empty set is the only one, and its label is empty. -/
lemma setLabel_of_forall_not_mem (hnone : ∀ q, q ∉ A.initial) (hS : A.Discovered S) :
    A.setLabel S = "" := by
  have hsame : ∀ S T, A.Discovered S → A.Discovered T → joinLabels S = joinLabels T → S = T :=
    fun S T hS hT _ => (hS.eq_empty hnone).trans (hT.eq_empty hnone).symm
  rw [(names_of_joinLabels_injective hsame).1 S hS, hS.eq_empty hnone]
  rfl

/-- That label is read as another one, and the state is not initial any more. -/
lemma not_mem_initial_rereadDeterminized (hnone : ∀ q, q ∉ A.initial) :
    ∀ q, q ∉ A.rereadDeterminized.initial := by
  intro q hq
  obtain ⟨f, hf, hmark⟩ := mem_initial.1 hq
  rw [rereadDeterminized, get?_assemble] at hf
  obtain ⟨before, behind, hlist, -⟩ := List.lookup_eq_some_iff.1 hf
  have hmem : (q, f) ∈ A.statesRead := by simp [hlist]
  obtain ⟨⟨p, g⟩, hstate, hread⟩ := List.mem_map.1 hmem
  obtain ⟨S, hS, rfl, rfl⟩ := get?_determinize.1 (mem_states_toList.1 hstate)
  rw [if_pos (setLabel_of_forall_not_mem hnone hS), Prod.mk.injEq] at hread
  rw [← hread.2] at hmark
  cases hmark

/-- A letter of one character is read as it is written. -/
lemma withoutReturn_singleton (h : A.Legible) {c : Char} (hc : String.singleton c ∈ A.letters) :
    withoutReturn (String.singleton c) = String.singleton c := by
  obtain ⟨-, d, hd, hblank⟩ := h.letters _ hc
  rw [String.toList_singleton, List.mem_singleton] at hd
  refine withoutReturn_of_getLast?_ne fun hreturn => ?_
  rw [String.toList_singleton, List.getLast?_singleton, Option.some.injEq, ← hd] at hreturn
  rw [hreturn] at hblank
  cases hblank

theorem walks_rereadDeterminized (h : A.Legible) (word : String) :
    A.rereadDeterminized.walks word = A.accepts word := by
  by_cases hinitial : ∃ q, q ∈ A.initial
  · rw [← walks_determinize_eq_accepts]
    have hstates : ∀ q, A.rereadDeterminized.states.get? q = A.determinize.states.get? q := by
      intro q
      rw [rereadDeterminized, get?_assemble, statesRead_eq h hinitial, lookup_states]
    have hstate : ∀ q, A.determinize.hasState q = true → A.rereadDeterminized.hasState q = true := by
      intro q hq
      rwa [hasState, SortedMap.contains, hstates]
    refine walks_congr hstates (fun q c t => ⟨mem_edges_of_mem_rereadDeterminized, fun he => ?_⟩) word
    obtain ⟨hsource, hsymbol, htarget⟩ := knows_iff.1 (knows_of_mem he)
    rw [alphabet_determinize] at hsymbol
    have hread : String.singleton c ∈ A.rereadDeterminized.alphabet := by
      rw [rereadDeterminized, mem_alphabet_assemble]
      exact .inl (List.mem_map.2 ⟨_, hsymbol, withoutReturn_singleton h hsymbol⟩)
    exact mem_edges_assemble.2 ⟨he, knows_iff.2 ⟨hstate q hsource, hread, hstate t htarget⟩⟩
  · push Not at hinitial
    rw [walks_eq_false (not_mem_initial_rereadDeterminized hinitial), accepts_eq_false hinitial]

/-- **The automata for which the conversion of a file succeeds.**  The text of the deterministic
automaton is read if and only if no initial state has a comma in its label or no edge with a letter
leaves a state in which runs can begin.  What is read then is deterministic and accepts the words that
the first automaton accepts. -/
theorem read_write_determinize_of_read {text : String} {r : Reading}
    (h : read .nondeterministic (.ofString text) = .ok r)
    (hfit : r.automaton.determinize.states.size < Numeral.limit) :
    ((∃ d, read .deterministic (.ofString r.automaton.determinize.write) = .ok d) ↔
      r.automaton.StartsLegible) ∧
    ∀ d, read .deterministic (.ofString r.automaton.determinize.write) = .ok d →
      d.automaton.isDeterministic = true ∧
        ∀ word, d.automaton.walks word = r.automaton.accepts word := by
  have hlegible := legible_of_read h
  have hcounts : r.automaton.determinize.CountsFit :=
    ⟨hfit, by rw [letters_determinize]; exact (countsFit_of_read h).letters⟩
  have hread {B : Automaton} := exists_read_determinize_iff (B := B) hlegible hcounts
  refine ⟨⟨?_, fun hstarts => ?_⟩, fun d hd => ?_⟩
  · rintro ⟨⟨B, warnings⟩, hd⟩
    exact (hread.1 ⟨warnings, hd⟩).1
  · obtain ⟨warnings, hd⟩ := hread.2 ⟨hstarts, rfl⟩
    exact ⟨_, hd⟩
  · rw [(hread.1 ⟨d.warnings, hd⟩).2]
    exact ⟨isDeterministic_rereadDeterminized _, walks_rereadDeterminized hlegible⟩

theorem read_write_determinize_of_read_silent :
    ∃ r, read .nondeterministic (.ofString silentSample.write) = .ok r ∧
      r.automaton.determinize.states.size < Numeral.limit ∧ r.automaton.StartsLegible ∧
      ∃ d, read .deterministic (.ofString r.automaton.determinize.write) = .ok d ∧
        d.automaton.isDeterministic = true ∧
        ∀ word, d.automaton.walks word = r.automaton.accepts word := by
  obtain ⟨warnings, hread⟩ : ∃ warnings,
      read .nondeterministic (.ofString silentSample.write) = .ok ⟨silentSample, warnings⟩ :=
    exists_read_iff_toOption.2 (by decide +kernel)
  have hfit : silentSample.determinize.states.size < Numeral.limit := by decide +kernel
  have hstarts : silentSample.StartsLegible := by
    refine .inl fun q hq => ?_
    rw [SortedSet.mem_def, show silentSample.initial.toList = ["q0"] by decide,
      List.mem_singleton] at hq
    subst hq
    decide
  obtain ⟨hiff, hread'⟩ := read_write_determinize_of_read hread hfit
  obtain ⟨d, hd⟩ := hiff.2 hstarts
  exact ⟨_, hread, hfit, hstarts, d, hd, hread' d hd⟩

/-- A comma in the label of an initial state is read, but in the label of a set it cannot be read as the
source of an edge. -/
theorem not_read_write_determinize_of_read :
    ∃ r, read .nondeterministic (.ofString "2\n1\na,b I\nq IF\nx\nq,x,q\n") = .ok r ∧
      read .deterministic (.ofString r.automaton.determinize.write) =
        .error ⟨.invalidEdge ⟨6, "a,bq,x,q"⟩, []⟩ :=
  ⟨_, rfl, rfl⟩

end FiniteAutomata.Automaton
