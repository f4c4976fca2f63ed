import FiniteAutomata.Proofs.Automaton.Refusal
import FiniteAutomata.Proofs.Automaton.Warnings
import FiniteAutomata.Proofs.Input.Pieces
import FiniteAutomata.Proofs.Numeral

/-!
# What a text holds

The reader looks at the lines that are not blank, each of which keeps its number among all lines.  If one
of them is not what is expected in its place, or is missing there, the first such line is the error.
Otherwise the lines fall into five parts, and what is read is told by the parts: a state has the marks that
it is listed with first, a symbol is a whole line, and an edge is there if its ends and its symbol are.

* `Sections.Written`, `valid_iff_written` — lines that fall into the five parts, told by their characters.
* `Sections.ReadAs` — what is read from such lines.
* **`Automaton.read_filled_lines`** — the reader on every text.
-/

namespace FiniteAutomata

open List (Forall₂)

variable {kind : Kind}

namespace Sections

variable {s : Sections}

/-! ## Lines that fall into five parts -/

/-- Every line is written as what it is sorted under, and the two numbers are right. -/
structure Written (s : Sections) : Prop where
  stateCount : Numeral.IsCount s.stateCount.text s.stateLines.length
  symbolCount : Numeral.IsCount s.symbolCount.text s.symbolLines.length
  states : Forall₂ (fun line state => Automaton.StateText line.text state.1 state.2)
    s.stateLines s.states
  edges : Forall₂ (fun line e => Automaton.EdgeText line.text e) s.edgeLines s.edges

lemma valid_iff_written : s.Valid ↔ s.Written := by
  constructor
  · rintro ⟨hstateCount, hsymbolCount, hstates, hedges⟩
    exact ⟨Numeral.parse_eq_ok_iff.1 hstateCount, Numeral.parse_eq_ok_iff.1 hsymbolCount,
      hstates.imp fun _ _ => Automaton.parseState_eq_some_iff.1,
      hedges.imp fun _ _ => Automaton.parseEdge_eq_some_iff.1⟩
  · rintro ⟨hstateCount, hsymbolCount, hstates, hedges⟩
    exact ⟨Numeral.parse_eq_ok_iff.2 hstateCount, Numeral.parse_eq_ok_iff.2 hsymbolCount,
      hstates.imp fun _ _ => Automaton.parseState_eq_some_iff.2,
      hedges.imp fun _ _ => Automaton.parseEdge_eq_some_iff.2⟩

/-- What is read from the lines: the states have the marks that they are listed with first, the symbols
are the lines themselves, and the edges are those of which the ends and the symbol are known.  There is a
warning for every line that contributes nothing. -/
structure ReadAs (s : Sections) (kind : Kind) (r : Reading) : Prop where
  states : ∀ q, r.automaton.states.get? q = s.states.lookup q
  alphabet : ∀ a, a ∈ r.automaton.alphabet ↔ a ∈ s.symbols ∨ a = epsilon ∧ kind = .nondeterministic
  edges : ∀ e, e ∈ r.automaton.edges ↔ e ∈ s.edges ∧ s.Knows kind e
  warnings : r.warnings = repeatedStates s.stateLines s.states ++ s.unknownEdges kind

lemma Valid.readAs (h : s.Valid) (kind : Kind) : s.ReadAs kind (s.reading kind) where
  states q := by rw [h.automaton_reading, automaton, Automaton.get?_assemble]
  alphabet a := by rw [h.automaton_reading, automaton, Automaton.mem_alphabet_assemble]
  edges e := by
    rw [h.automaton_reading, ← knows_automaton_iff, automaton, Automaton.mem_edges_assemble]
  warnings := h.warnings_reading kind

end Sections

/-! ## The reader -/

namespace Line

variable {line : Line}

lemma holdsState_iff : line.HoldsState ↔ ∃ q f, Automaton.StateText line.text q f := by
  simp only [HoldsState, Prod.exists, Automaton.parseState_eq_some_iff]

lemma holdsEdge_iff : line.HoldsEdge ↔ line.text.toList.count ',' = 2 :=
  Automaton.exists_parseEdge_iff

end Line

namespace Automaton

lemma forall_not_refused_iff {input : Input} (herror : input.error = none) :
    (∀ e, ¬ Refused input e) ↔ ∃ s : Sections, s.Valid ∧ s.lines = input.filled := by
  -- whether the reader fails is the same for both kinds
  simp only [← @failsWith_read_iff .deterministic, forall_not_failsWith_iff, read_eq_ok_iff, herror,
    true_and]
  constructor
  · rintro ⟨_, s, hs, hlines, -⟩
    exact ⟨s, hs, hlines⟩
  · rintro ⟨s, hs, hlines⟩
    exact ⟨_, s, hs, hlines, rfl⟩

/-- The reader sees nothing but the lines that are not blank, and why there are no others. -/
lemma read_congr (kind : Kind) {input other : Input} (hfilled : other.filled = input.filled)
    (herror : other.error = input.error) : read kind other = read kind input := by
  rw [read, read, hfilled, herror]

/-- **The reader on every text**, of which the lines are the pieces between its line feeds without their
ends. It fails with the error of the first line that is not what is expected in its place. If there is no
such line, the lines that are not blank fall into five parts, and what is read is told by the parts. What a
line holds is told by its characters, and nothing matters but the lines that are not blank and their
numbers. -/
theorem read_filled_lines (kind : Kind) (text : String) :
    ∃ pieces : List (List Char), (∀ others, CutBehind '\n' text.toList others ↔ others = pieces) ∧
      ∃ lines : List String, (∀ others, HasLines pieces others ↔ others = lines) ∧
        (Input.mk lines none).filled = givenLines true (Input.numberFrom 1 lines) ∧
        (∀ e, FailsWith (read kind (.ofBytes text.toUTF8)) e ↔ Refused ⟨lines, none⟩ e) ∧
        ((∀ e, ¬ Refused ⟨lines, none⟩ e) ↔
          ∃ s : Sections, s.Written ∧ s.lines = givenLines true (Input.numberFrom 1 lines)) ∧
        (∀ s : Sections, s.Written → s.lines = givenLines true (Input.numberFrom 1 lines) →
          ∃ r, read kind (.ofBytes text.toUTF8) = .ok r ∧ s.ReadAs kind r) ∧
        (∀ line : Line,
          (∀ n, Numeral.parse line.text = .ok n ↔ Numeral.IsCount line.text n) ∧
          (∀ d, Numeral.parse line.text = .error d ↔ Numeral.NotCount line.text d) ∧
          (line.HoldsState ↔ ∃ q f, StateText line.text q f) ∧
          (line.HoldsEdge ↔ line.text.toList.count ',' = 2)) ∧
        ∀ (other : String) (cut : List (List Char)) (others : List String),
          CutBehind '\n' other.toList cut → HasLines cut others →
            givenLines true (Input.numberFrom 1 others) = givenLines true (Input.numberFrom 1 lines) →
              read kind (.ofBytes other.toUTF8) = read kind (.ofBytes text.toUTF8) := by
  obtain ⟨pieces, hpieces, lines, hlines, hinput⟩ := exists_lines text
  have hfilled : (Input.mk lines none).filled = givenLines true (Input.numberFrom 1 lines) :=
    filled_eq_givenLines _
  refine ⟨pieces, hpieces, lines, hlines, hfilled, ?_⟩
  rw [hinput, ← hfilled]
  refine ⟨fun e => failsWith_read_iff, ?_, ?_, ?_, ?_⟩
  · have herror : (Input.mk lines none).error = none := rfl
    simp only [forall_not_refused_iff herror, Sections.valid_iff_written]
  · intro s hs hlines
    have hvalid := Sections.valid_iff_written.2 hs
    exact ⟨s.reading kind, read_eq_ok_iff.2 ⟨rfl, s, hvalid, hlines, rfl⟩, hvalid.readAs kind⟩
  · exact fun line => ⟨fun n => Numeral.parse_eq_ok_iff, fun d => Numeral.parse_eq_error_iff,
      line.holdsState_iff, line.holdsEdge_iff⟩
  · intro other cut others hcut hothers hsame
    rw [hcut.ofBytes_eq hothers]
    exact read_congr kind ((filled_eq_givenLines _).trans hsame) rfl

/-- A state that is listed again, and an edge on a symbol that is not there, behind blank lines. -/
example :
    (read .deterministic (.ofString "2\n\n0\np F\n \np I\np,,p\n")).toOption.map
      (fun r => (r.automaton.final.toList, r.warnings)) =
    some (["p"], [.duplicateState "p" 6, .unknownEdge ⟨"p", epsilon, "p"⟩ 7]) := by
  decide +kernel

end Automaton

end FiniteAutomata
