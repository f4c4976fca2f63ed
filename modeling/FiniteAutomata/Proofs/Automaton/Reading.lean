import FiniteAutomata.Proofs.Automaton.Changes
import FiniteAutomata.Proofs.Automaton.Runs
import FiniteAutomata.Proofs.Automaton.SingleLines
import FiniteAutomata.Proofs.Input.Lines

/-!
# What the reader accepts

An input holds an automaton if its lines that are not blank fall into five parts: two numbers, as many
states and as many symbols as these numbers say, and edges up to the end.  The reader succeeds on these
inputs and on no others, and what it returns is put together from the parts.

* `Sections`, `Sections.Valid` — lines that fall into the five parts.
* `Reading.readCount_eq_ok_iff`, `readStates_eq_ok_iff`, `readSymbols_eq_ok_iff`,
  `readEdges_eq_ok_iff` — one part each.
* **`read_eq_ok_iff`** — the reader finds the parts, and only them.
* **`legible_of_read`** — what has been read can be told apart again where it is written.
* **`not_isSeparator_of_walks`** — no word with a comma or white space is taken by what has been read.
-/

namespace FiniteAutomata

open List (Forall₂)

/-! ## The parts of an input -/

namespace Reading

/-- The states that lines hold are added one after the other. -/
def withStates (r : Reading) (lines : List Line) (states : List (Label × Flags)) : Reading :=
  (lines.zip states).foldl (fun r x => r.addState x.2.1 x.2.2 x.1.number) r

/-- Every line is added as a symbol. -/
def withSymbols (r : Reading) (lines : List Line) : Reading :=
  { r with automaton := r.automaton.addSymbols (lines.map (·.text)) }

/-- The edges that lines hold are added one after the other. -/
def withEdges (r : Reading) (lines : List Line) (edges : List Edge) : Reading :=
  (lines.zip edges).foldl (fun r x => r.addEdge x.2 x.1.number) r

end Reading

/-- Lines that are sorted by what they hold, and what the states and the edges among them are. -/
structure Sections where
  stateCount : Line
  symbolCount : Line
  stateLines : List Line
  states : List (Label × Flags)
  symbolLines : List Line
  edgeLines : List Line
  edges : List Edge

namespace Sections

/-- All lines, in their order. -/
def lines (s : Sections) : List Line :=
  s.stateCount :: s.symbolCount :: (s.stateLines ++ (s.symbolLines ++ s.edgeLines))

/-- The symbols are what stands on their lines. -/
def symbols (s : Sections) : List Symbol := s.symbolLines.map (·.text)

/-- A symbol stands on a line. -/
lemma mem_map_text_of_mem_symbols {s : Sections} {a : Symbol} (h : a ∈ s.symbols) :
    a ∈ s.lines.map (·.text) := by
  obtain ⟨line, hline, rfl⟩ := List.mem_map.1 h
  exact List.mem_map_of_mem (by simp [lines, hline])

/-- Every line holds what it is sorted under, and the two numbers are right. -/
structure Valid (s : Sections) : Prop where
  stateCount : Numeral.parse s.stateCount.text = .ok s.stateLines.length
  symbolCount : Numeral.parse s.symbolCount.text = .ok s.symbolLines.length
  states : Forall₂ (fun line state => Automaton.parseState line.text = some state)
    s.stateLines s.states
  edges : Forall₂ (fun line e => Automaton.parseEdge line.text = some e) s.edgeLines s.edges

/-- What is read from the lines, with the warnings. -/
def reading (s : Sections) (kind : Kind) : Reading :=
  (((⟨Automaton.blank kind, []⟩ : Reading).withStates s.stateLines s.states).withSymbols
    s.symbolLines).withEdges s.edgeLines s.edges

/-- The automaton that is read from the lines. -/
def automaton (s : Sections) (kind : Kind) : Automaton :=
  Automaton.assemble kind s.states s.symbols s.edges

end Sections

/-! ## One part after the other -/

namespace Reading

variable {r r' : Reading} {lines rest : List Line} {count : Nat} {α : Type}

lemma refuse_ne_ok {error : FormatError} {a : α} : r.refuse error ≠ .ok a := by
  intro h
  cases h

lemma readCount_eq_ok_iff {what : Expected} :
    r.readCount what lines = .ok (count, rest) ↔
      ∃ line, lines = line :: rest ∧ Numeral.parse line.text = .ok count := by
  cases lines with
  | nil => simp [readCount, refuse_ne_ok]
  | cons line lines =>
      rw [readCount]
      cases hparse : Numeral.parse line.text with
      | error e => simp [refuse_ne_ok, hparse]
      | ok n => simp [hparse, and_comm]

lemma readStates_eq_ok_iff :
    r.readStates count lines = .ok (r', rest) ↔
      ∃ here, lines = here ++ rest ∧ here.length = count ∧
        ∃ states, Forall₂ (fun line state => Automaton.parseState line.text = some state)
          here states ∧ r' = r.withStates here states := by
  induction count generalizing r lines with
  | zero => simp [readStates, withStates, eq_comm, and_comm]
  | succ count ih =>
      cases lines with
      | nil => simp [readStates, refuse_ne_ok]
      | cons line lines =>
          rw [readStates, exists_cons_eq_append_iff]
          cases hparse : Automaton.parseState line.text with
          | none => simp [refuse_ne_ok, hparse, List.forall₂_cons_left_iff]
          | some state => simp [ih, hparse, List.forall₂_cons_left_iff, withStates]

lemma readSymbols_eq_ok_iff :
    r.readSymbols count lines = .ok (r', rest) ↔
      ∃ here, lines = here ++ rest ∧ here.length = count ∧ r' = r.withSymbols here := by
  induction count generalizing r lines with
  | zero =>
      simp only [readSymbols, Except.ok.injEq, Prod.mk.injEq, List.length_eq_zero_iff]
      constructor
      · rintro ⟨rfl, rfl⟩
        exact ⟨[], rfl, rfl, rfl⟩
      · rintro ⟨_, rfl, rfl, rfl⟩
        exact ⟨rfl, rfl⟩
  | succ count ih =>
      cases lines with
      | nil => simp [readSymbols, refuse_ne_ok]
      | cons line lines =>
          rw [readSymbols, exists_cons_eq_append_iff, ih]
          rfl

lemma readEdges_eq_ok_iff :
    r.readEdges lines = .ok r' ↔
      ∃ edges, Forall₂ (fun line e => Automaton.parseEdge line.text = some e) lines edges ∧
        r' = r.withEdges lines edges := by
  induction lines generalizing r with
  | nil => simp [readEdges, withEdges, eq_comm]
  | cons line lines ih =>
      rw [readEdges]
      cases hparse : Automaton.parseEdge line.text with
      | none => simp [refuse_ne_ok, hparse, List.forall₂_cons_left_iff]
      | some e => simp [ih, hparse, List.forall₂_cons_left_iff, withEdges]

/-! ### The automaton alone -/

lemma automaton_addState {label : Label} {flags : Flags} {line : Nat} :
    (r.addState label flags line).automaton = r.automaton.addState label flags := by
  rw [addState, Automaton.addState]
  split_ifs <;> rfl

lemma automaton_addEdge {e : Edge} {line : Nat} :
    (r.addEdge e line).automaton = r.automaton.addEdge e := by
  rw [addEdge]
  split_ifs with h
  · rfl
  · rw [Automaton.addEdge, dif_neg h]

lemma automaton_withStates {states : List (Label × Flags)} (h : lines.length = states.length) :
    (r.withStates lines states).automaton = r.automaton.addStates states := by
  induction states generalizing r lines with
  | nil =>
      rw [withStates, List.zip_nil_right]
      rfl
  | cons state states ih =>
      obtain ⟨line, lines, rfl⟩ := List.exists_cons_of_length_eq_add_one h
      change ((r.addState state.1 state.2 line.number).withStates lines states).automaton =
        (r.automaton.addState state.1 state.2).addStates states
      rw [ih (Nat.succ.inj h), automaton_addState]

lemma automaton_withEdges {edges : List Edge} (h : lines.length = edges.length) :
    (r.withEdges lines edges).automaton = r.automaton.addEdges edges := by
  induction edges generalizing r lines with
  | nil =>
      rw [withEdges, List.zip_nil_right]
      rfl
  | cons e edges ih =>
      obtain ⟨line, lines, rfl⟩ := List.exists_cons_of_length_eq_add_one h
      change ((r.addEdge e line.number).withEdges lines edges).automaton =
        (r.automaton.addEdge e).addEdges edges
      rw [ih (Nat.succ.inj h), automaton_addEdge]

end Reading

/-! ## The whole input -/

lemma Sections.Valid.automaton_reading {s : Sections} (h : s.Valid) (kind : Kind) :
    (s.reading kind).automaton = s.automaton kind := by
  rw [Sections.reading, Reading.automaton_withEdges h.edges.length_eq, Reading.withSymbols,
    Reading.automaton_withStates h.states.length_eq]
  rfl

namespace Automaton

variable {kind : Kind} {input : Input} {r : Reading} {A : Automaton}

/-- **The reader succeeds on the inputs that fall into the five parts, and returns what is put
together from them.** -/
theorem read_eq_ok_iff :
    read kind input = .ok r ↔
      input.error = none ∧ ∃ s : Sections, s.Valid ∧ s.lines = input.filled ∧ r = s.reading kind := by
  simp only [read, bind_eq_ok_iff, Prod.exists, Reading.readCount_eq_ok_iff,
    Reading.readStates_eq_ok_iff, Reading.readSymbols_eq_ok_iff, Reading.readEdges_eq_ok_iff]
  -- every step takes its part from the front, and an error of the input is met at the end
  constructor
  · rintro ⟨states, _, ⟨stateCount, hfilled, hstateCount⟩, symbols, _,
      ⟨symbolCount, rfl, hsymbolCount⟩, _, _, ⟨stateLines, rfl, rfl, stateList, hstates, rfl⟩, _,
      edgeLines, ⟨symbolLines, rfl, rfl, rfl⟩, _, ⟨edges, hedges, rfl⟩, hr⟩
    cases herror : input.error with
    | some error =>
        rw [herror] at hr
        cases hr
    | none =>
        rw [herror] at hr
        refine ⟨rfl, ⟨stateCount, symbolCount, stateLines, stateList, symbolLines, edgeLines, edges⟩,
          ⟨hstateCount, hsymbolCount, hstates, hedges⟩, hfilled.symm, (Except.ok.inj hr).symm⟩
  · rintro ⟨herror, s, hs, hfilled, rfl⟩
    refine ⟨_, _, ⟨_, hfilled.symm, hs.stateCount⟩, _, _, ⟨_, rfl, hs.symbolCount⟩, _, _,
      ⟨_, rfl, rfl, _, hs.states, rfl⟩, _, _, ⟨_, rfl, rfl, rfl⟩, _, ⟨_, hs.edges, rfl⟩, ?_⟩
    rw [herror]
    rfl

/-- What is read is told by the texts of the lines. -/
lemma exists_read_iff :
    (∃ warnings, read kind input = .ok ⟨A, warnings⟩) ↔
      input.error = none ∧ ∃ s : Sections, s.Valid ∧ s.lines = input.filled ∧
        A = s.automaton kind := by
  simp only [read_eq_ok_iff]
  constructor
  · rintro ⟨warnings, herror, s, hs, hlines, hr⟩
    exact ⟨herror, s, hs, hlines, by rw [← hs.automaton_reading, ← hr]⟩
  · rintro ⟨herror, s, hs, hlines, rfl⟩
    exact ⟨(s.reading kind).warnings, herror, s, hs, hlines, by rw [← hs.automaton_reading]⟩

/-- Whether an automaton is read can be found out without the warnings. -/
lemma exists_read_iff_toOption :
    (∃ warnings, read kind input = .ok ⟨A, warnings⟩) ↔
      (read kind input).toOption.map (·.automaton) = some A := by
  cases read kind input with
  | error refusal => simp [Except.toOption]
  | ok r =>
      simp only [Except.toOption, Option.map_some, Option.some.injEq, Except.ok.injEq]
      exact ⟨fun ⟨_, h⟩ => congrArg Reading.automaton h, fun h => ⟨r.warnings, by rw [← h]⟩⟩

/-! ## What can be read -/

/-- The parts of the automaton can be told apart where they are written: labels by the white space
around them, symbols by the ends of lines, and the ends and the symbol of an edge by commas. -/
structure Legible (A : Automaton) : Prop where
  labels : ∀ q, A.hasState q = true → q ≠ "" ∧ ∀ c ∈ q.toList, Text.isBlank c = false
  letters : ∀ s ∈ A.letters, '\n' ∉ s.toList ∧ ∃ c ∈ s.toList, Text.isBlank c = false
  edges : ∀ e ∈ A.edges, ',' ∉ e.source.toList ∧ ',' ∉ e.symbol.toList ∧ ',' ∉ e.target.toList

lemma not_isBlank_of_parseState {text : String} {label : Label} {flags : Flags}
    (h : parseState text = some (label, flags)) :
    label ≠ "" ∧ ∀ c ∈ label.toList, Text.isBlank c = false := by
  obtain ⟨hne, hfilled, -⟩ := parseState_eq_some_iff.1 h
  exact ⟨hne, hfilled⟩

lemma not_mem_comma_of_parseEdge {text : String} {e : Edge} (h : parseEdge text = some e) :
    ',' ∉ e.source.toList ∧ ',' ∉ e.symbol.toList ∧ ',' ∉ e.target.toList := by
  obtain ⟨-, hfields⟩ := parseEdge_eq_some_iff.1 h
  simpa using hfields

/-- A label that is read is a word. -/
lemma not_isBlank_label {s : Sections} {q : Label} (hs : s.Valid)
    (hq : (s.automaton kind).hasState q = true) :
    q ≠ "" ∧ ∀ c ∈ q.toList, Text.isBlank c = false := by
  obtain ⟨f, hf⟩ := hasState_iff.1 hq
  rw [Sections.automaton, get?_assemble] at hf
  obtain ⟨before, behind, hstates, -⟩ := List.lookup_eq_some_iff.1 hf
  have hmem : (q, f) ∈ s.states := by simp [hstates]
  obtain ⟨line, -, hline⟩ := exists_of_mem_right hs.states hmem
  exact not_isBlank_of_parseState hline

/-- A letter that is read is a line. -/
lemma mem_map_text_lines {s : Sections} {a : Symbol} (ha : a ∈ (s.automaton kind).letters) :
    a ∈ s.lines.map (·.text) := by
  obtain ⟨halphabet, hne⟩ := mem_letters.1 ha
  rw [Sections.automaton, mem_alphabet_assemble] at halphabet
  exact Sections.mem_map_text_of_mem_symbols (halphabet.resolve_right fun h => hne h.1)

/-- **What has been read can be told apart again where it is written.** -/
theorem legible_of_read {text : String} (h : read kind (.ofString text) = .ok r) :
    r.automaton.Legible := by
  obtain ⟨-, s, hs, hlines, rfl⟩ := read_eq_ok_iff.1 h
  rw [hs.automaton_reading]
  refine ⟨fun q hq => not_isBlank_label hs hq, fun a ha => ?_, fun e he => ?_⟩
  · have hfilled := mem_map_text_lines ha
    rw [hlines, Input.map_text_filled, List.mem_filter] at hfilled
    refine ⟨Input.not_mem_toList_of_mem_lines hfilled.1, ?_⟩
    simpa [Text.isBlankText] using hfilled.2
  · obtain ⟨line, -, hline⟩ := exists_of_mem_right hs.edges (mem_edges_assemble.1 he).1
    exact not_mem_comma_of_parseEdge hline

/-! ## Words that can be read -/

/-- The characters that have a meaning of their own in a file: commas and white space. -/
def IsSeparator (c : Char) : Prop := c = ',' ∨ Text.isBlank c = true

lemma not_isSeparator_iff {c : Char} : ¬ IsSeparator c ↔ c ≠ ',' ∧ Text.isBlank c = false := by
  rw [IsSeparator, not_or, Bool.not_eq_true]

/-- Every character of a word is on an edge that the walk takes. -/
lemma exists_edge_of_walk? {q t : Label} {w : List Char} {c : Char} (h : A.walk? q w = some t)
    (hc : c ∈ w) : ∃ e ∈ A.edges, e.symbol = String.singleton c := by
  induction w generalizing q with
  | nil => cases hc
  | cons d w ih =>
      obtain ⟨p, hnext, hrest⟩ := Option.bind_eq_some_iff.1 h
      rcases List.mem_cons.1 hc with rfl | hc
      · exact ⟨_, (next?_eq_some_iff.1 hnext p).2 rfl, rfl⟩
      · exact ih hrest hc

/-- **No automaton that has been read takes a word with a separator in it.** -/
theorem not_isSeparator_of_walks {text word : String} (h : read kind (.ofString text) = .ok r)
    (hwalks : r.automaton.walks word = true) : ∀ c ∈ word.toList, ¬ IsSeparator c := by
  intro c hc
  obtain ⟨q, -, t, -, hwalk⟩ := walks_iff.1 hwalks
  obtain ⟨e, he, hsymbol⟩ := exists_edge_of_walk? hwalk hc
  have hlegible := legible_of_read h
  have hletter : String.singleton c ∈ r.automaton.letters :=
    mem_letters.2 ⟨hsymbol ▸ (knows_iff.1 (knows_of_mem he)).2.1, String.singleton_ne_empty⟩
  have hcomma := (hlegible.edges e he).2.1
  obtain ⟨-, d, hd, hblank⟩ := hlegible.letters _ hletter
  rw [hsymbol] at hcomma
  rw [String.toList_singleton, List.mem_singleton] at hcomma hd
  exact not_isSeparator_iff.2 ⟨Ne.symm hcomma, hd ▸ hblank⟩

end Automaton

end FiniteAutomata
