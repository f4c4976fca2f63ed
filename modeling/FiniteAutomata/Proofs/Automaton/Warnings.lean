import FiniteAutomata.Proofs.Automaton.Reading

/-!
# What the reader warns of

Two things are passed over when an automaton is read: a state with a label that is on a line before, and an
edge of which an end or the symbol is unknown.  The reader warns of each of them once, of the states first
and then of the edges, in the order of the lines.

* `repeatedStates`, `Sections.unknownEdges` — the warnings, told by the lines alone.
* `Sections.Knows`, `knows_automaton_iff` — the edges that are not passed over.
* **`Sections.Valid.warnings_reading`** — what the reader warns of.
-/

namespace FiniteAutomata

variable {kind : Kind} {lines : List Line} {states : List (Label × Flags)} {edges : List Edge}

/-! ## States -/

/-- A warning for every line of which the state has a label that a state before it has. -/
def repeatedStates (lines : List Line) (states : List (Label × Flags)) : List FormatWarning :=
  (lines.zip states).zipIdx.filterMap fun x =>
    if x.1.2.1 ∈ (states.take x.2).map (·.1) then some (.duplicateState x.1.2.1 x.1.1.number) else none

/-- States behind a state do not matter for it. -/
lemma repeatedStates_concat (h : lines.length = states.length) (line : Line) (p : Label × Flags) :
    repeatedStates (lines ++ [line]) (states ++ [p]) = repeatedStates lines states ++
      if p.1 ∈ states.map (·.1) then [.duplicateState p.1 line.number] else [] := by
  have hlength : (lines.zip states).length = states.length := by
    rw [List.length_zip, h, Nat.min_self]
  rw [repeatedStates, List.zip_append h, List.zipIdx_append, List.filterMap_append]
  congr 1
  · refine List.filterMap_congr fun y hy => ?_
    have hlt : y.2 < (lines.zip states).length := List.snd_lt_of_mem_zipIdx hy
    rw [List.take_append_of_le_length (hlength ▸ hlt.le)]
  · rw [hlength, List.zip_cons_cons, List.zip_nil_left, List.zipIdx_singleton, List.filterMap_cons,
      List.filterMap_nil, Nat.zero_add, List.take_left]
    split_ifs <;> rfl

/-- Nothing is repeated if all labels are different. -/
lemma repeatedStates_of_nodup (h : (states.map (·.1)).Nodup) : repeatedStates lines states = [] := by
  refine List.filterMap_eq_nil_iff.2 fun x hx => if_neg fun hmem => ?_
  have hget : (lines.zip states)[x.2]? = some x.1 := List.mem_zipIdx_iff_getElem?.1 hx
  have hstate : (states.drop x.2)[0]? = some x.1.2 := by
    rw [List.getElem?_drop]
    exact (List.getElem?_zip_eq_some.1 hget).2
  rw [← List.take_append_drop x.2 states, List.map_append, List.nodup_append] at h
  exact h.2.2 _ hmem _ (List.mem_map_of_mem (List.mem_of_getElem? hstate)) rfl

namespace Reading

variable {r : Reading}

lemma withStates_concat (h : lines.length = states.length) (line : Line) (p : Label × Flags) :
    r.withStates (lines ++ [line]) (states ++ [p]) =
      (r.withStates lines states).addState p.1 p.2 line.number := by
  rw [withStates, List.zip_append h, List.foldl_append]
  rfl

/-- What is warned of when states are added one after the other. -/
lemma warnings_withStates (h : lines.length = states.length) :
    (withStates ⟨Automaton.blank kind, []⟩ lines states).warnings = repeatedStates lines states := by
  induction states using List.reverseRecOn generalizing lines with
  | nil =>
      rw [withStates, repeatedStates, List.zip_nil_right]
      rfl
  | append_singleton states p ih =>
      obtain ⟨lines, line, rfl⟩ : ∃ before line, lines = before ++ [line] := by
        refine (List.eq_nil_or_concat' lines).resolve_left ?_
        rintro rfl
        simp at h
      have hlength : lines.length = states.length := by simpa using h
      have hlabel : (withStates ⟨Automaton.blank kind, []⟩ lines states).automaton.hasState p.1 = true ↔
          p.1 ∈ states.map (·.1) := by
        rw [automaton_withStates hlength, Automaton.hasState_addStates, Automaton.hasState_blank,
          or_iff_right Bool.false_ne_true]
      rw [withStates_concat hlength, repeatedStates_concat hlength, ← ih hlength, addState]
      simp only [hlabel]
      split_ifs
      · rfl
      · exact (List.append_nil _).symm

/-! ## Edges -/

/-- What is warned of when edges are added one after the other. -/
lemma warnings_withEdges :
    (r.withEdges lines edges).warnings = r.warnings ++ (lines.zip edges).filterMap fun x =>
      if r.automaton.knows x.2 then none else some (.unknownEdge x.2 x.1.number) := by
  rw [withEdges]
  induction lines.zip edges generalizing r with
  | nil => exact (List.append_nil _).symm
  | cons x listed ih =>
      have hknows : (r.addEdge x.2 x.1.number).automaton.knows = r.automaton.knows := by
        funext e
        rw [automaton_addEdge, Automaton.knows_addEdge]
      rw [List.foldl_cons, ih, hknows, List.filterMap_cons, addEdge]
      split_ifs <;> simp

end Reading

/-- An edge between listed states, with a listed symbol or, in an automaton with silent steps, `epsilon`. -/
def Sections.Knows (s : Sections) (kind : Kind) (e : Edge) : Prop :=
  e.source ∈ s.states.map (·.1) ∧
    (e.symbol ∈ s.symbols ∨ e.symbol = epsilon ∧ kind = .nondeterministic) ∧
      e.target ∈ s.states.map (·.1)

instance (s : Sections) (kind : Kind) (e : Edge) : Decidable (s.Knows kind e) :=
  inferInstanceAs (Decidable (_ ∧ (_ ∨ _ ∧ _) ∧ _))

lemma knows_automaton_iff {s : Sections} {e : Edge} :
    (s.automaton kind).knows e = true ↔ s.Knows kind e := by
  rw [Automaton.knows_iff, Sections.automaton, Automaton.hasState_assemble, Automaton.hasState_assemble,
    Automaton.mem_alphabet_assemble, Sections.Knows]

/-- A warning for every line with an edge that is not known. -/
def Sections.unknownEdges (s : Sections) (kind : Kind) : List FormatWarning :=
  (s.edgeLines.zip s.edges).filterMap fun x =>
    if s.Knows kind x.2 then none else some (.unknownEdge x.2 x.1.number)

/-! ## The whole input -/

/-- **The reader warns of the states that are repeated and of the edges that are not known**, once for each
of their lines and in their order. -/
theorem Sections.Valid.warnings_reading {s : Sections} (h : s.Valid) (kind : Kind) :
    (s.reading kind).warnings = repeatedStates s.stateLines s.states ++ s.unknownEdges kind := by
  have hknown : ∀ e, (((⟨Automaton.blank kind, []⟩ : Reading).withStates s.stateLines
      s.states).withSymbols s.symbolLines).automaton.knows e = true ↔ s.Knows kind e := by
    intro e
    rw [← knows_automaton_iff, ← h.automaton_reading, reading,
      Reading.automaton_withEdges h.edges.length_eq, Automaton.knows_addEdges]
  rw [reading, Reading.warnings_withEdges, unknownEdges]
  simp only [hknown]
  rw [Reading.withSymbols, Reading.warnings_withStates h.states.length_eq]

end FiniteAutomata
