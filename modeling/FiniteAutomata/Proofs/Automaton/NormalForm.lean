import FiniteAutomata.Proofs.Automaton.RoundTrip
import FiniteAutomata.Proofs.Automaton.Warnings

/-!
# Writing what has been read

Many texts hold the same automaton: blank lines and white space mean nothing, the marks of a state can
change places, a state can be listed twice, and edges can refer to nothing at all.  Reading does away with
all this, so an automaton that has been read is written in a normal form.  There is nothing to warn of in
it, and reading and writing it leaves it as it is, character by character.

* `Sections.Valid.warnings_reading_eq_nil` — inputs that nothing is to be said of.
* `read_write_of_reread_eq` — what is not lost is read back without a warning.
* `normalForm?` — the text that a text is written as after it has been read.
* **`normalForm?_of_read`** — a second reading finds the same automaton, and a second writing the same
  text.
-/

namespace FiniteAutomata

/-! ## Inputs without warnings -/

/-- There is nothing to warn of if no state is listed twice and all edges are known in the end. -/
lemma Sections.Valid.warnings_reading_eq_nil {s : Sections} {kind : Kind} (hs : s.Valid)
    (hnodup : (s.states.map (·.1)).Nodup) (hknown : ∀ e ∈ s.edges, (s.automaton kind).knows e = true) :
    (s.reading kind).warnings = [] := by
  rw [hs.warnings_reading, repeatedStates_of_nodup hnodup, List.nil_append, unknownEdges,
    List.filterMap_eq_nil_iff]
  intro x hx
  exact if_pos (knows_automaton_iff.1 (hknown x.2 (List.of_mem_zip hx).2))

namespace Automaton

variable {A : Automaton} {kind : Kind} {text : String} {r : Reading}

/-! ## Reading what has been read and written -/

/-- **A legible automaton of which nothing is lost is read back without a warning.** -/
theorem read_write_of_reread_eq (hfit : A.CountsFit) (h : A.Legible) (hsame : A.reread kind = A) :
    read kind (.ofString A.write) = .ok ⟨A, []⟩ := by
  obtain ⟨hstates, hedges⟩ := h.forall₂_lines
  obtain ⟨s, hs, hlines, hstates, hsymbols, hedges⟩ := exists_sections_write hfit h.linesKept hstates hedges
  have hautomaton : s.automaton kind = A := by
    rw [Sections.automaton, hstates, hsymbols, hedges]
    exact hsame
  have hwarnings : (s.reading kind).warnings = [] := by
    refine hs.warnings_reading_eq_nil ?_ fun e he => ?_
    · rw [hstates]
      exact nodup_keys
    · rw [hedges] at he
      rw [hautomaton]
      exact knows_of_mem he
  refine read_eq_ok_iff.2 ⟨rfl, s, hs, hlines, ?_⟩
  rw [← hwarnings, ← hautomaton, ← hs.automaton_reading]

/-- No line is empty, so `epsilon` is a symbol exactly of the kind that begins with it. -/
lemma epsilon_mem_alphabet_of_read (h : read kind (.ofString text) = .ok r) :
    epsilon ∈ r.automaton.alphabet ↔ kind = .nondeterministic := by
  obtain ⟨-, s, hs, hlines, rfl⟩ := read_eq_ok_iff.1 h
  rw [hs.automaton_reading, Sections.automaton, mem_alphabet_assemble, or_iff_right, and_iff_right rfl]
  intro hsymbol
  have hfilled := Sections.mem_map_text_of_mem_symbols hsymbol
  rw [hlines, Input.map_text_filled] at hfilled
  have hblank := (List.mem_filter.1 hfilled).2
  cases hblank

/-- The text that the automaton in a text is written as, if there is an automaton in it. -/
def normalForm? (kind : Kind) (text : String) : Option String :=
  (read kind (.ofString text)).toOption.map (·.automaton.write)

/-- **What has been read is written in a normal form**, unless a symbol ends in a carriage return: it is
read again as the same automaton and without a warning, so it is written again as the same text. -/
theorem normalForm?_of_read (h : read kind (.ofString text) = .ok r)
    (hreturns : ∀ s ∈ r.automaton.alphabet, s.toList.getLast? ≠ some '\r') :
    read kind (.ofString r.automaton.write) = .ok ⟨r.automaton, []⟩ ∧
      normalForm? kind text = some r.automaton.write ∧
      normalForm? kind r.automaton.write = some r.automaton.write := by
  have hlegible := legible_of_read h
  have hsame : r.automaton.reread kind = r.automaton :=
    (reread_eq_self_iff hlegible).2
      ⟨epsilon_mem_alphabet_of_read h, fun s hs => hreturns s (mem_letters.1 hs).1⟩
  have hagain := read_write_of_reread_eq (countsFit_of_read h) hlegible hsame
  refine ⟨hagain, ?_, ?_⟩
  · rw [normalForm?, h]
    rfl
  · rw [normalForm?, hagain]
    rfl

/-- Blank lines, white space around, marks in the other order, a state that is listed twice, an edge that
refers to nothing, a label with a comma, and no end of the last line. -/
def untidy : String :=
  "\n 3 \r\n1\n\n  q0\t FI\nq0 I\n\ta,b \r\na\n\nq0,,q0\r\nq0,x,q0\nq0,a,q0"

/-- What is in the text. -/
def tidied : Automaton :=
  build .nondeterministic [.state "q0" .both false, .state "a,b" .empty false, .symbol "a",
    .edge ⟨"q0", epsilon, "q0"⟩, .edge ⟨"q0", "a", "q0"⟩]

theorem normalForm?_untidy :
    (∃ warnings, read .nondeterministic (.ofString untidy) = .ok ⟨tidied, warnings⟩) ∧
      (∀ s ∈ tidied.alphabet, s.toList.getLast? ≠ some '\r') ∧
      read .nondeterministic (.ofString tidied.write) = .ok ⟨tidied, []⟩ ∧
      normalForm? .nondeterministic untidy = some tidied.write ∧
      normalForm? .nondeterministic tidied.write = some tidied.write := by
  obtain ⟨warnings, hread⟩ : ∃ warnings,
      read .nondeterministic (.ofString untidy) = .ok ⟨tidied, warnings⟩ :=
    exists_read_iff_toOption.2 (by decide +kernel)
  have hreturns : ∀ s ∈ tidied.alphabet, s.toList.getLast? ≠ some '\r' := by
    intro s hs
    have hlist : tidied.alphabet.toList = ["", "a"] := by decide
    rw [SortedSet.mem_def, hlist] at hs
    revert s
    decide
  have hnormal := normalForm?_of_read hread hreturns
  exact ⟨⟨warnings, hread⟩, hreturns, hnormal⟩

end Automaton

end FiniteAutomata
