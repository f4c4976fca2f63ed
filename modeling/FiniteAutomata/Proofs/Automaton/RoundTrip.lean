import FiniteAutomata.Automaton.Writer
import FiniteAutomata.Proofs.Automaton.Determinize
import FiniteAutomata.Proofs.Automaton.Reading
import FiniteAutomata.Proofs.Numeral
import Mathlib.Data.Finset.Max

/-!
# Reading what has been written

The text of an automaton is read back as the same automaton if its labels, symbols and edges are
legible, no symbol ends in a carriage return, and `epsilon` is in the alphabet of the kind that is
asked for.  No other automaton is read back: what is read is always legible, and a carriage return at
the end of a symbol is lost.  A reading that loses it somewhere cannot make up for it elsewhere, since
then there would be longer and longer symbols.

* `parseState_stateLine`, `parseEdge_edgeLine` — a single line.
* `exists_read_write` — a legible automaton is read back up to carriage returns.
* `reread_eq_self_iff` — when nothing is lost.
* **`read_write_iff`** — the automata that are read back as they are.
* `Plain`, `recoverable_determinize` — texts without separators, and automata with such labels and
  symbols.
-/

namespace FiniteAutomata.Automaton

open List (Forall₂)

variable {A : Automaton} {kind : Kind} {q : Label} {f : Flags} {e : Edge} {line : String}

/-! ## Single lines -/

/-- The line of a state. -/
def stateLine (s : Label × Flags) : String := s.1 ++ s.2.mark

/-- The line of an edge. -/
def edgeLine (e : Edge) : String := e.source ++ "," ++ e.symbol ++ "," ++ e.target

lemma writtenLines_eq :
    A.writtenLines = [toString A.states.size, toString A.letters.size] ++
      A.states.toList.map stateLine ++ A.letters.toList ++ A.edges.toList.map edgeLine := rfl

lemma toList_edgeLine :
    (edgeLine e).toList = e.source.toList ++ ',' :: (e.symbol.toList ++ ',' :: e.target.toList) := by
  simp [edgeLine]

/-- Marks that are not empty are a word behind a space, and they are read as they are written. -/
lemma exists_mark :
    ∀ f : Flags, f = .empty ∨ ∃ mark : String, f.mark = " " ++ mark ∧ mark ≠ "" ∧
      (∀ c ∈ mark.toList, Text.isBlank c = false) ∧ parseMark mark = some f
  | ⟨true, true⟩ => .inr ⟨"IF", rfl, by decide, by simp [Text.isBlank], rfl⟩
  | ⟨true, false⟩ => .inr ⟨"I", rfl, by decide, by simp [Text.isBlank], rfl⟩
  | ⟨false, true⟩ => .inr ⟨"F", rfl, by decide, by simp [Text.isBlank], rfl⟩
  | ⟨false, false⟩ => .inl rfl

lemma toList_ne_nil {s : String} (h : s ≠ "") : s.toList ≠ [] :=
  fun hnil => h (String.toList_eq_nil_iff.1 hnil)

/-- **A label without white space is read together with its marks.** -/
lemma parseState_stateLine (hne : q ≠ "") (hq : ∀ c ∈ q.toList, Text.isBlank c = false) :
    parseState (stateLine (q, f)) = some (q, f) := by
  have hword : Text.words q.toList = [q.toList] := Text.words_of_not_blank (toList_ne_nil hne) hq
  rcases exists_mark f with rfl | ⟨mark, hmark, hmarkne, hfilled, hparse⟩
  · have hline : stateLine (q, .empty) = q := String.append_empty
    rw [parseState, hline, hword, List.map_singleton, String.ofList_toList]
  · have hline : (stateLine (q, f)).toList = q.toList ++ ' ' :: mark.toList := by
      simp [stateLine, hmark]
    rw [parseState, hline, Text.words_append_blank rfl, hword,
      Text.words_of_not_blank (toList_ne_nil hmarkne) hfilled]
    simp [hparse]

/-- **An edge without commas in its parts is read again.** -/
lemma parseEdge_edgeLine (hsource : ',' ∉ e.source.toList) (hsymbol : ',' ∉ e.symbol.toList)
    (htarget : ',' ∉ e.target.toList) : parseEdge (edgeLine e) = some e :=
  parseEdge_eq_some_iff.2 ⟨rfl, by simp [hsource, hsymbol, htarget]⟩

/-- No other edge is read, and an edge with a comma in one of its parts is not read at all. -/
lemma parseEdge_edgeLine_iff {d : Edge} :
    parseEdge (edgeLine e) = some d ↔
      d = e ∧ ',' ∉ e.source.toList ∧ ',' ∉ e.symbol.toList ∧ ',' ∉ e.target.toList := by
  constructor
  · intro h
    -- two commas are between the parts, so there are none in them
    have hcount : (edgeLine e).toList.count ',' = 2 := exists_parseEdge_iff.1 ⟨d, h⟩
    simp only [toList_edgeLine, List.count_append, List.count_cons_self] at hcount
    have hparts : ',' ∉ e.source.toList ∧ ',' ∉ e.symbol.toList ∧ ',' ∉ e.target.toList := by
      simp only [← List.count_eq_zero]
      omega
    rw [parseEdge_edgeLine hparts.1 hparts.2.1 hparts.2.2] at h
    exact ⟨(Option.some.inj h).symm, hparts⟩
  · rintro ⟨rfl, hsource, hsymbol, htarget⟩
    exact parseEdge_edgeLine hsource hsymbol htarget

/-! ## The lines that are read -/

lemma endsFilled_toString (n : Nat) : EndsFilled (toString n) := by
  refine endsFilled_of_not_blank (fun hempty => ?_) fun c hc => not_isBlank_of_mem_toString hc
  have hnil := congrArg String.toList hempty
  rw [toList_toString_nat] at hnil
  exact Nat.toDigits_ne_nil hnil

lemma endsFilled_stateLine (h : EndsFilled q) : EndsFilled (stateLine (q, f)) := by
  rcases exists_mark f with rfl | ⟨mark, hmark, hne, hfilled, -⟩
  · have hline : stateLine (q, .empty) = q := String.append_empty
    rwa [hline]
  · rw [stateLine, hmark, ← String.append_assoc]
    exact (endsFilled_of_not_blank hne hfilled).append _

lemma endsFilled_edgeLine (h : EndsFilled e.target) : EndsFilled (edgeLine e) := h.append _

lemma not_mem_feed_of_not_blank (h : ∀ c ∈ q.toList, Text.isBlank c = false) : '\n' ∉ q.toList := by
  intro hfeed
  have hblank := h '\n' hfeed
  cases hblank

lemma not_mem_stateLine (h : '\n' ∉ q.toList) : '\n' ∉ (stateLine (q, f)).toList := by
  have hmark : ∀ f : Flags, '\n' ∉ f.mark.toList := by
    rintro ⟨_ | _, _ | _⟩ <;> decide
  simp [stateLine, h, hmark f]

lemma not_mem_edgeLine (hsource : '\n' ∉ e.source.toList) (hsymbol : '\n' ∉ e.symbol.toList)
    (htarget : '\n' ∉ e.target.toList) : '\n' ∉ (edgeLine e).toList := by
  simp [toList_edgeLine, hsource, hsymbol, htarget]

/-- The reader finds the lines that are written, though the symbols may have lost a carriage return. -/
structure LinesKept (A : Automaton) : Prop where
  states : ∀ s ∈ A.states.toList, '\n' ∉ (stateLine s).toList ∧ EndsFilled (stateLine s)
  letters : ∀ s ∈ A.letters, '\n' ∉ s.toList ∧ ∃ c ∈ s.toList, Text.isBlank c = false
  edges : ∀ e ∈ A.edges, '\n' ∉ (edgeLine e).toList ∧ EndsFilled (edgeLine e)

namespace LinesKept

/-- No line is cut in two or passed over. -/
lemma of_mem_writtenLines (h : A.LinesKept) (hline : line ∈ A.writtenLines) :
    '\n' ∉ line.toList ∧ Text.isBlankText line = false := by
  have hnumber : ∀ n : Nat, '\n' ∉ (toString n).toList := by
    intro n hfeed
    have hdigit := isDigit_of_mem_toString hfeed
    cases hdigit
  rw [writtenLines_eq] at hline
  simp only [List.mem_append, List.mem_cons, List.not_mem_nil, or_false, List.mem_map] at hline
  rcases hline with (((rfl | rfl) | ⟨s, hs, rfl⟩) | hletter) | ⟨e, he, rfl⟩
  · exact ⟨hnumber _, (endsFilled_toString _).isBlankText_eq⟩
  · exact ⟨hnumber _, (endsFilled_toString _).isBlankText_eq⟩
  · exact (h.states s hs).imp_right EndsFilled.isBlankText_eq
  · obtain ⟨hfeed, c, hc, hblank⟩ := h.letters line hletter
    exact ⟨hfeed, List.all_eq_false.2 ⟨c, hc, by simp [hblank]⟩⟩
  · exact (h.edges e he).imp_right EndsFilled.isBlankText_eq

/-- The reader finds the lines that have been written, without carriage returns at their ends. -/
lemma map_text_filled_write (h : A.LinesKept) :
    (Input.ofString A.write).filled.map (·.text) = A.writtenLines.map withoutReturn := by
  have hinput : Input.ofString A.write = ⟨A.writtenLines.map withoutReturn, none⟩ :=
    Input.ofString_join fun line hline => (h.of_mem_writtenLines hline).1
  rw [Input.map_text_filled, hinput, List.filter_eq_self]
  intro line hline
  obtain ⟨written, hwritten, rfl⟩ := List.mem_map.1 hline
  rw [isBlankText_withoutReturn, (h.of_mem_writtenLines hwritten).2]
  rfl

/-- Only the lines of the symbols can lose a carriage return. -/
lemma map_withoutReturn_writtenLines (h : A.LinesKept) :
    A.writtenLines.map withoutReturn = toString A.states.size :: toString A.letters.size ::
      (A.states.toList.map stateLine ++
        (A.letters.toList.map withoutReturn ++ A.edges.toList.map edgeLine)) := by
  have hstates : (A.states.toList.map stateLine).map withoutReturn =
      A.states.toList.map stateLine := by
    rw [List.map_map]
    exact List.map_congr_left fun s hs => (h.states s hs).2.withoutReturn_eq
  have hedges : (A.edges.toList.map edgeLine).map withoutReturn = A.edges.toList.map edgeLine := by
    rw [List.map_map]
    exact List.map_congr_left fun e he => (h.edges e he).2.withoutReturn_eq
  rw [writtenLines_eq]
  simp only [List.map_append, List.map_cons, List.map_nil, hstates, hedges,
    (endsFilled_toString _).withoutReturn_eq]
  simp

end LinesKept

lemma Legible.endsFilled_label (h : A.Legible) (hq : A.hasState q = true) : EndsFilled q :=
  endsFilled_of_not_blank (h.labels q hq).1 (h.labels q hq).2

lemma Legible.not_mem_symbol (h : A.Legible) (he : e ∈ A.edges) : '\n' ∉ e.symbol.toList := by
  by_cases hsymbol : e.symbol = epsilon
  · simp [hsymbol, epsilon]
  · have halphabet := (knows_iff.1 (knows_of_mem he)).2.1
    exact (h.letters _ (mem_letters.2 ⟨halphabet, hsymbol⟩)).1

lemma Legible.linesKept (h : A.Legible) : A.LinesKept where
  states s hs := by
    have hq : A.hasState s.1 = true := hasState_of_get? (mem_states_toList.1 hs)
    exact ⟨not_mem_stateLine (not_mem_feed_of_not_blank (h.labels _ hq).2),
      endsFilled_stateLine (h.endsFilled_label hq)⟩
  letters := h.letters
  edges e he := by
    obtain ⟨hsource, -, htarget⟩ := knows_iff.1 (knows_of_mem he)
    exact ⟨not_mem_edgeLine (not_mem_feed_of_not_blank (h.labels _ hsource).2) (h.not_mem_symbol he)
      (not_mem_feed_of_not_blank (h.labels _ htarget).2),
      endsFilled_edgeLine (h.endsFilled_label htarget)⟩

/-- The lines of the states and the edges are read as they are written. -/
lemma Legible.forall₂_lines (h : A.Legible) :
    Forall₂ (fun s state => parseState (stateLine s) = some state) A.states.toList A.states.toList ∧
      Forall₂ (fun e edge => parseEdge (edgeLine e) = some edge) A.edges.toList A.edges.toList := by
  refine ⟨List.forall₂_same.2 ?_, List.forall₂_same.2 fun e he => ?_⟩
  · rintro ⟨q, f⟩ hstate
    obtain ⟨hne, hfilled⟩ := h.labels q (hasState_of_get? (mem_states_toList.1 hstate))
    exact parseState_stateLine hne hfilled
  · obtain ⟨hsource, hsymbol, htarget⟩ := h.edges e he
    exact parseEdge_edgeLine hsource hsymbol htarget

/-! ## Reading the lines -/

/-- The automaton with its symbols read from their lines, and with `epsilon` as the kind has it. -/
def reread (A : Automaton) (kind : Kind) : Automaton :=
  assemble kind A.states.toList (A.letters.toList.map withoutReturn) A.edges.toList

/-- The numbers that the text begins with stay below the bound for the numbers that are read. It is the
number of addresses there are, so every automaton that a memory can hold stays below it. -/
structure CountsFit (A : Automaton) : Prop where
  states : A.states.size < Numeral.limit
  letters : A.letters.size < Numeral.limit

/-- The numbers that an automaton has been read with can be read again. -/
lemma countsFit_of_read {text : String} {r : Reading} (h : read kind (.ofString text) = .ok r) :
    r.automaton.CountsFit := by
  obtain ⟨-, s, hs, -, rfl⟩ := read_eq_ok_iff.1 h
  rw [hs.automaton_reading]
  constructor
  · have hsubset : (s.automaton kind).states.keys.toList ⊆ s.states.map (·.1) := by
      intro q hq
      obtain ⟨f, hf⟩ := hasState_iff.1 (mem_keys_toList.1 hq)
      rw [Sections.automaton, get?_assemble] at hf
      obtain ⟨before, behind, hstates, -⟩ := List.lookup_eq_some_iff.1 hf
      simp [hstates]
    calc (s.automaton kind).states.size
        = (s.automaton kind).states.keys.toList.length := (List.length_map _).symm
      _ ≤ (s.states.map (·.1)).length := (nodup_keys.subperm hsubset).length_le
      _ = s.stateLines.length := by rw [List.length_map, hs.states.length_eq]
      _ < Numeral.limit := Numeral.lt_limit_of_parse hs.stateCount
  · have hsubset : (s.automaton kind).letters.toList ⊆ s.symbols := by
      intro a ha
      obtain ⟨halphabet, hne⟩ := mem_letters.1 ha
      exact (mem_alphabet_assemble.1 halphabet).resolve_right fun h => hne h.1
    calc (s.automaton kind).letters.size
        ≤ s.symbols.length := ((SortedSet.nodup_toList _).subperm hsubset).length_le
      _ = s.symbolLines.length := List.length_map _
      _ < Numeral.limit := Numeral.lt_limit_of_parse hs.symbolCount

/-- The lines that are written fall into the five parts of an input, and hold what the lines of the
states and the edges are read as. -/
lemma exists_sections_write {states : List (Label × Flags)} {edges : List Edge} (hfit : A.CountsFit)
    (h : A.LinesKept)
    (hstates : Forall₂ (fun s state => parseState (stateLine s) = some state) A.states.toList states)
    (hedges : Forall₂ (fun e edge => parseEdge (edgeLine e) = some edge) A.edges.toList edges) :
    ∃ s : Sections, s.Valid ∧ s.lines = (Input.ofString A.write).filled ∧ s.states = states ∧
      s.symbols = A.letters.toList.map withoutReturn ∧ s.edges = edges := by
  have hlines := h.map_text_filled_write
  rw [h.map_withoutReturn_writtenLines] at hlines
  obtain ⟨stateCount, _, hfilled, hstateCount, hlines⟩ := List.map_eq_cons_iff.1 hlines
  obtain ⟨symbolCount, _, rfl, hsymbolCount, hlines⟩ := List.map_eq_cons_iff.1 hlines
  obtain ⟨stateLines, _, rfl, hstateLines, hlines⟩ := List.map_eq_append_iff.1 hlines
  obtain ⟨symbolLines, edgeLines, rfl, hsymbolLines, hedgeLines⟩ := List.map_eq_append_iff.1 hlines
  have hstateNumber : stateLines.length = A.states.toList.length := by
    simpa using congrArg List.length hstateLines
  have hsymbolNumber : symbolLines.length = A.letters.toList.length := by
    simpa using congrArg List.length hsymbolLines
  refine ⟨⟨stateCount, symbolCount, stateLines, states, symbolLines, edgeLines, edges⟩,
    ⟨?_, ?_, ?_, ?_⟩, hfilled.symm, rfl, hsymbolLines, rfl⟩
  · rw [hstateCount, hstateNumber]
    exact Numeral.parse_toString hfit.states
  · rw [hsymbolCount, hsymbolNumber]
    exact Numeral.parse_toString hfit.letters
  · exact (forall₂_iff_of_map_eq (R := fun line s => parseState line = some s) hstateLines).2 hstates
  · exact (forall₂_iff_of_map_eq (R := fun line e => parseEdge line = some e) hedgeLines).2 hedges

/-- **What is read back is what the lines of the states and the edges are read as**, with the symbols
up to carriage returns. -/
theorem exists_read_write_iff {B : Automaton} (hfit : A.CountsFit) (h : A.LinesKept) :
    (∃ warnings, read kind (.ofString A.write) = .ok ⟨B, warnings⟩) ↔
      ∃ states edges,
        Forall₂ (fun s state => parseState (stateLine s) = some state) A.states.toList states ∧
        Forall₂ (fun e edge => parseEdge (edgeLine e) = some edge) A.edges.toList edges ∧
        B = assemble kind states (A.letters.toList.map withoutReturn) edges := by
  have hlines := h.map_text_filled_write
  rw [h.map_withoutReturn_writtenLines] at hlines
  rw [exists_read_iff]
  constructor
  · rintro ⟨-, ⟨stateCount, symbolCount, stateLines, states, symbolLines, edgeLines, edges⟩, hs,
      hsections, rfl⟩
    rw [← hsections] at hlines
    simp only [Sections.lines, List.map_cons, List.map_append, List.cons.injEq] at hlines
    obtain ⟨hstateCount, hsymbolCount, hlines⟩ := hlines
    -- the numbers say where the sections end
    have hstateNumber : stateLines.length = A.states.toList.length := by
      have hparse := hs.stateCount
      rw [hstateCount, Numeral.parse_toString hfit.states] at hparse
      exact (Except.ok.inj hparse).symm
    have hsymbolNumber : symbolLines.length = A.letters.toList.length := by
      have hparse := hs.symbolCount
      rw [hsymbolCount, Numeral.parse_toString hfit.letters] at hparse
      exact (Except.ok.inj hparse).symm
    obtain ⟨hstateLines, hlines⟩ := List.append_inj hlines (by simpa using hstateNumber)
    obtain ⟨hsymbolLines, hedgeLines⟩ := List.append_inj hlines (by simpa using hsymbolNumber)
    refine ⟨states, edges, ?_, ?_, by rw [Sections.automaton, Sections.symbols, hsymbolLines]⟩
    · exact (forall₂_iff_of_map_eq (R := fun line s => parseState line = some s) hstateLines).1
        hs.states
    · exact (forall₂_iff_of_map_eq (R := fun line e => parseEdge line = some e) hedgeLines).1
        hs.edges
  · rintro ⟨states, edges, hstates, hedges, rfl⟩
    obtain ⟨s, hs, hfilled, rfl, hsymbols, rfl⟩ := exists_sections_write hfit h hstates hedges
    exact ⟨rfl, s, hs, hfilled, by rw [Sections.automaton, hsymbols]⟩

/-- **A legible automaton is read back up to carriage returns and `epsilon`.** -/
theorem exists_read_write (hfit : A.CountsFit) (h : A.Legible) (kind : Kind) :
    ∃ warnings, read kind (.ofString A.write) = .ok ⟨A.reread kind, warnings⟩ := by
  obtain ⟨hstates, hedges⟩ := h.forall₂_lines
  exact (exists_read_write_iff hfit h.linesKept).2 ⟨_, _, hstates, hedges, rfl⟩

/-- A carriage return at the end of a symbol is taken for a part of the end of the line. -/
example : (read .deterministic
    (.ofString (build .deterministic [.symbol "a\r"]).write)).toOption.map (·.automaton) =
      some (build .deterministic [.symbol "a"]) := by decide

/-! ## When nothing is lost -/

lemma mem_alphabet_reread {s : Symbol} :
    s ∈ (A.reread kind).alphabet ↔
      (∃ t ∈ A.letters, withoutReturn t = s) ∨ s = epsilon ∧ kind = .nondeterministic := by
  rw [reread, mem_alphabet_assemble, List.mem_map]
  rfl

/-- If every member of a finite set of texts is a member without its carriage return, no member ends in
one: otherwise there would be a longer member for every member that does. -/
lemma getLast?_ne_of_forall_exists {l : List String}
    (h : ∀ s ∈ l, ∃ t ∈ l, withoutReturn t = s) : ∀ s ∈ l, s.toList.getLast? ≠ some '\r' := by
  intro s hs hreturn
  -- a longest one among those that end in a carriage return
  obtain ⟨longest, hmem, hmax⟩ :=
    (l.toFinset.filter fun t => t.toList.getLast? = some '\r').exists_max_image String.length
      ⟨s, by simp [hs, hreturn]⟩
  simp only [Finset.mem_filter, List.mem_toFinset] at hmem hmax
  obtain ⟨t, ht, hlongest⟩ := h longest hmem.1
  have htreturn : t = longest ++ "\r" := by
    rcases withoutReturn_cases t with ⟨hne, heq⟩ | heq
    · rw [← heq, hlongest] at hne
      exact absurd hmem.2 hne
    · rwa [hlongest] at heq
  have hlast : t.toList.getLast? = some '\r' := by
    rw [htreturn, String.toList_append, List.getLast?_append]
    rfl
  have hle := hmax t ⟨ht, hlast⟩
  rw [htreturn, String.length_append] at hle
  have hone : "\r".length = 1 := rfl
  omega

/-- Nothing is lost if the symbols are there; the states and the edges always are. -/
lemma reread_eq_self (hsymbols : ∀ s, s ∈ (A.reread kind).alphabet ↔ s ∈ A.alphabet) :
    A.reread kind = A := by
  have hstates : ∀ q, (A.reread kind).states.get? q = A.states.get? q := by
    intro q
    rw [reread, get?_assemble, lookup_states]
  refine ext_of_mem hsymbols hstates fun e => ?_
  rw [reread, mem_edges_assemble, ← reread]
  refine ⟨And.left, fun he => ⟨he, ?_⟩⟩
  have hknows := knows_of_mem he
  rw [knows_iff] at hknows ⊢
  simpa [hasState, SortedMap.contains, hstates, hsymbols] using hknows

/-- A letter that is legible is not lost as a whole. -/
lemma Legible.withoutReturn_ne_epsilon (h : A.Legible) {t : Symbol} (ht : t ∈ A.letters) :
    withoutReturn t ≠ epsilon := by
  intro hempty
  have hblank := isBlankText_withoutReturn t
  rw [hempty, show Text.isBlankText epsilon = true from rfl] at hblank
  obtain ⟨c, hc, hfilled⟩ := (h.letters t ht).2
  rw [List.all_eq_true.1 hblank.symm c hc] at hfilled
  cases hfilled

/-- **Nothing is lost if no symbol ends in a carriage return and the kind has `epsilon` as the
automaton has it.** -/
theorem reread_eq_self_iff (h : A.Legible) :
    A.reread kind = A ↔
      (epsilon ∈ A.alphabet ↔ kind = .nondeterministic) ∧
        ∀ s ∈ A.letters, s.toList.getLast? ≠ some '\r' := by
  constructor
  · intro hreread
    have hmem : ∀ s, s ∈ A.alphabet ↔
        (∃ t ∈ A.letters, withoutReturn t = s) ∨ s = epsilon ∧ kind = .nondeterministic := by
      intro s
      rw [← mem_alphabet_reread, hreread]
    constructor
    · rw [hmem, or_iff_right, and_iff_right rfl]
      rintro ⟨t, ht, hempty⟩
      exact h.withoutReturn_ne_epsilon ht hempty
    · refine getLast?_ne_of_forall_exists fun s hs => ?_
      obtain ⟨halphabet, hne⟩ := mem_letters.1 hs
      exact ((hmem s).1 halphabet).resolve_right fun hempty => hne hempty.1
  · rintro ⟨hepsilon, hreturns⟩
    refine reread_eq_self fun s => ?_
    have hletters : (∃ t ∈ A.letters, withoutReturn t = s) ↔ s ∈ A.letters := by
      constructor
      · rintro ⟨t, ht, rfl⟩
        rwa [withoutReturn_of_getLast?_ne (hreturns t ht)]
      · exact fun hs => ⟨s, hs, withoutReturn_of_getLast?_ne (hreturns s hs)⟩
    rw [mem_alphabet_reread, hletters, mem_letters, ← hepsilon]
    by_cases hs : s = epsilon
    · simp [hs]
    · simp [hs]

/-- The automaton is read back as it is when it is read as an automaton of this kind. -/
structure Recoverable (A : Automaton) (kind : Kind) : Prop where
  /-- Whether `epsilon` is a symbol is not written. -/
  epsilon : epsilon ∈ A.alphabet ↔ kind = .nondeterministic
  labels : ∀ q, A.hasState q = true → q ≠ "" ∧ ∀ c ∈ q.toList, Text.isBlank c = false
  symbols : ∀ s ∈ A.alphabet, s ≠ FiniteAutomata.epsilon →
    '\n' ∉ s.toList ∧ s.toList.getLast? ≠ some '\r' ∧ ∃ c ∈ s.toList, Text.isBlank c = false
  edges : ∀ e ∈ A.edges, ',' ∉ e.source.toList ∧ ',' ∉ e.symbol.toList ∧ ',' ∉ e.target.toList

lemma recoverable_iff :
    A.Recoverable kind ↔ A.Legible ∧ (epsilon ∈ A.alphabet ↔ kind = .nondeterministic) ∧
      ∀ s ∈ A.letters, s.toList.getLast? ≠ some '\r' := by
  constructor
  · rintro ⟨hepsilon, hlabels, hsymbols, hedges⟩
    refine ⟨⟨hlabels, fun s hs => ?_, hedges⟩, hepsilon, fun s hs => ?_⟩
    · obtain ⟨hfeed, -, hfilled⟩ := hsymbols s (mem_letters.1 hs).1 (mem_letters.1 hs).2
      exact ⟨hfeed, hfilled⟩
    · exact (hsymbols s (mem_letters.1 hs).1 (mem_letters.1 hs).2).2.1
  · rintro ⟨⟨hlabels, hletters, hedges⟩, hepsilon, hreturns⟩
    refine ⟨hepsilon, hlabels, fun s hs hne => ?_, hedges⟩
    have hletter := mem_letters.2 ⟨hs, hne⟩
    exact ⟨(hletters s hletter).1, hreturns s hletter, (hletters s hletter).2⟩

lemma Recoverable.exists_read (hfit : A.CountsFit) (h : A.Recoverable kind) :
    ∃ warnings, read kind (.ofString A.write) = .ok ⟨A, warnings⟩ := by
  obtain ⟨hlegible, hnothing⟩ := recoverable_iff.1 h
  obtain ⟨warnings, hread⟩ := exists_read_write hfit hlegible kind
  rw [(reread_eq_self_iff hlegible).2 hnothing] at hread
  exact ⟨warnings, hread⟩

/-- **The automata that are read back as they are.** An automaton of which the numbers of states and
symbols can be written is read from its text if and only if it is recoverable. -/
theorem read_write_iff (hfit : A.CountsFit) :
    (∃ warnings, read kind (.ofString A.write) = .ok ⟨A, warnings⟩) ↔ A.Recoverable kind := by
  refine ⟨?_, fun h => h.exists_read hfit⟩
  rintro ⟨warnings, hread⟩
  have hlegible : A.Legible := legible_of_read hread
  obtain ⟨others, hreread⟩ := exists_read_write hfit hlegible kind
  have hsame : A.reread kind = A := by
    rw [hread] at hreread
    exact (congrArg Reading.automaton (Except.ok.inj hreread)).symm
  exact recoverable_iff.2 ⟨hlegible, (reread_eq_self_iff hlegible).1 hsame⟩

/-- Two states, a symbol, and an edge on `epsilon`. -/
def silentSample : Automaton :=
  build .nondeterministic [.state "q0" .onlyInitial false, .state "q1" .onlyFinal false,
    .symbol "a", .edge ⟨"q0", epsilon, "q1"⟩, .edge ⟨"q1", "a", "q1"⟩]

theorem read_write_silent :
    silentSample.CountsFit ∧ silentSample.Recoverable .nondeterministic ∧
      ∃ warnings, read .nondeterministic (.ofString silentSample.write) =
        .ok ⟨silentSample, warnings⟩ :=
  have hfit : silentSample.CountsFit := ⟨by decide, by decide⟩
  have hread := exists_read_iff_toOption.2 (by decide +kernel)
  ⟨hfit, (read_write_iff hfit).1 hread, hread⟩

/-! ## Automata without separators -/

/-- No character of the text has a meaning of its own in a file. -/
def Plain (s : String) : Prop := ∀ c ∈ s.toList, ¬ IsSeparator c

namespace Plain

variable {s : String}

lemma not_isBlank (h : Plain s) : ∀ c ∈ s.toList, Text.isBlank c = false :=
  fun c hc => (not_isSeparator_iff.1 (h c hc)).2

lemma not_mem_comma (h : Plain s) : ',' ∉ s.toList := fun hcomma => h ',' hcomma (.inl rfl)

lemma not_mem_feed (h : Plain s) : '\n' ∉ s.toList := fun hfeed => h '\n' hfeed (.inr rfl)

lemma getLast?_ne (h : Plain s) : s.toList.getLast? ≠ some '\r' :=
  fun hreturn => h '\r' (List.mem_of_getLast? hreturn) (.inr rfl)

end Plain

/-- Labels and symbols without separators are not misread. -/
lemma recoverable_of_plain (hepsilon : epsilon ∈ A.alphabet ↔ kind = .nondeterministic)
    (hlabels : ∀ q, A.hasState q = true → q ≠ "" ∧ Plain q) (hletters : ∀ s ∈ A.letters, Plain s) :
    A.Recoverable kind where
  epsilon := hepsilon
  labels q hq := ⟨(hlabels q hq).1, (hlabels q hq).2.not_isBlank⟩
  symbols s hs hne := by
    have hplain := hletters s (mem_letters.2 ⟨hs, hne⟩)
    obtain ⟨c, hc⟩ := List.exists_mem_of_ne_nil s.toList (toList_ne_nil hne)
    exact ⟨hplain.not_mem_feed, hplain.getLast?_ne, c, hc, hplain.not_isBlank c hc⟩
  edges e he := by
    obtain ⟨hsource, halphabet, htarget⟩ := knows_iff.1 (knows_of_mem he)
    refine ⟨(hlabels _ hsource).2.not_mem_comma, ?_, (hlabels _ htarget).2.not_mem_comma⟩
    by_cases hsymbol : e.symbol = FiniteAutomata.epsilon
    · simp [hsymbol, FiniteAutomata.epsilon]
    · exact (hletters _ (mem_letters.2 ⟨halphabet, hsymbol⟩)).not_mem_comma

/-- **Determinizing keeps an automaton without separators in its labels and symbols recoverable.** -/
theorem recoverable_determinize (hinitial : ∃ q, q ∈ A.initial)
    (hlabels : ∀ q, A.hasState q = true → q ≠ "" ∧ Plain q) (hletters : ∀ s ∈ A.letters, Plain s) :
    A.determinize.Recoverable .deterministic := by
  have hletter : ∀ s ∈ A.determinize.alphabet, s ∈ A.letters := by
    intro s hs
    rwa [alphabet_determinize] at hs
  refine recoverable_of_plain ?_ ?_ fun s hs => hletters s (hletter s (mem_letters.1 hs).1)
  · exact iff_of_false (fun h => (mem_letters.1 (hletter _ h)).2 rfl) (by simp)
  · -- a label is made of labels of states and of primes
    intro q hq
    obtain ⟨S, hS, rfl⟩ := hasState_determinize.1 hq
    obtain ⟨p, hp⟩ := hS.exists_mem hinitial
    refine ⟨setLabel_ne_empty hS (fun q hq => (hlabels q hq).1) hp, fun c hc => ?_⟩
    rcases exists_of_mem_setLabel hS hc with rfl | ⟨q, hq, hc⟩
    · exact not_isSeparator_iff.2 ⟨by decide, rfl⟩
    · exact (hlabels q hq).2 c hc

end FiniteAutomata.Automaton
