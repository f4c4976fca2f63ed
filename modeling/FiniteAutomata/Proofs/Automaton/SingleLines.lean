import FiniteAutomata.Automaton.Reader
import FiniteAutomata.Proofs.Text.Cutting

/-!
# States and edges on single lines

A state is a label, perhaps with marks behind it, and white space has no other meaning than to separate the
two.  An edge is three fields with commas between them, and white space belongs to the fields.  The
predicates below say what such lines look like; the reader recognizes these lines and no others.

* `MarksText`, `StateText`, `EdgeText` — what a line looks like.
* **`parseState_eq_some_iff`, `parseEdge_eq_some_iff`** — what is read from a line.
* `exists_parseEdge_iff` — the lines with an edge, by the number of their commas.
-/

namespace FiniteAutomata.Automaton

variable {text : String} {q : Label} {f : Flags} {e : Edge}

/-! ## States -/

/-- The marks that can stand behind a label, and what they say. -/
def marks : List (String × Flags) :=
  [("I", .onlyInitial), ("F", .onlyFinal), ("IF", .both), ("FI", .both)]

lemma parseMark_eq_some_iff {mark : String} : parseMark mark = some f ↔ (mark, f) ∈ marks := by
  unfold parseMark
  split <;> simp_all [marks, eq_comm]

/-- What stands behind a label: white space or nothing, or marks with white space before them and perhaps
behind them. -/
inductive MarksText : List Char → Flags → Prop
  | unmarked {behind : List Char} (h : ∀ c ∈ behind, Text.isBlank c = true) : MarksText behind .empty
  | marked {gap rest : List Char} {mark : String} {f : Flags} (hmark : (mark, f) ∈ marks)
      (hne : gap ≠ []) (hgap : ∀ c ∈ gap, Text.isBlank c = true)
      (hrest : ∀ c ∈ rest, Text.isBlank c = true) : MarksText (gap ++ (mark.toList ++ rest)) f

/-- The text is a label that is not empty and holds no white space, with white space or nothing before it,
and marks behind it or none. -/
def StateText (text : String) (q : Label) (f : Flags) : Prop :=
  q ≠ "" ∧ (∀ c ∈ q.toList, Text.isBlank c = false) ∧
    ∃ before behind, text.toList = before ++ (q.toList ++ behind) ∧
      (∀ c ∈ before, Text.isBlank c = true) ∧ MarksText behind f

/-- Marks are words. -/
lemma words_mark {mark : String} (h : (mark, f) ∈ marks) :
    mark.toList ≠ [] ∧ ∀ c ∈ mark.toList, Text.isBlank c = false := by
  revert h
  simp only [marks, List.mem_cons, Prod.mk.injEq, List.not_mem_nil, or_false]
  rintro (⟨rfl, -⟩ | ⟨rfl, -⟩ | ⟨rfl, -⟩ | ⟨rfl, -⟩) <;> simp [Text.isBlank]

/-- Behind a label there is no word, or one word that is marks. -/
lemma marksText_iff {behind : List Char} :
    MarksText behind f ↔ (∀ c ∈ behind.head?, Text.isBlank c = true) ∧
      (Text.words behind = [] ∧ f = .empty ∨
        ∃ mark, Text.words behind = [mark.toList] ∧ parseMark mark = some f) := by
  constructor
  · rintro (h | @⟨gap, rest, mark, f, hmark, hne, hgap, hrest⟩)
    · exact ⟨fun c hc => h c (List.mem_of_head? hc), .inl ⟨Text.words_of_blank h, rfl⟩⟩
    · obtain ⟨hmarkne, hfilled⟩ := words_mark hmark
      refine ⟨fun c hc => hgap c ?_, .inr ⟨mark, ?_, parseMark_eq_some_iff.2 hmark⟩⟩
      · rw [List.head?_append_of_ne_nil _ hne] at hc
        exact List.mem_of_head? hc
      · exact Text.words_eq_singleton_iff.2 ⟨hmarkne, hfilled, gap, rest, rfl, hgap, hrest⟩
  · rintro ⟨hhead, ⟨hwords, rfl⟩ | ⟨mark, hwords, hmark⟩⟩
    · exact .unmarked (Text.words_eq_nil_iff.1 hwords)
    · obtain ⟨hne, hfilled, gap, rest, rfl, hgap, hrest⟩ := Text.words_eq_singleton_iff.1 hwords
      refine .marked (parseMark_eq_some_iff.1 hmark) ?_ hgap hrest
      -- without a gap the marks would be a part of the label
      rintro rfl
      obtain ⟨c, cs, hcs⟩ := List.exists_cons_of_ne_nil hne
      have hblank := hhead c (by simp [hcs])
      rw [hfilled c (hcs ▸ List.mem_cons_self ..)] at hblank
      cases hblank

lemma parseState_eq_some_iff_words :
    parseState text = some (q, f) ↔ ∃ ws, Text.words text.toList = q.toList :: ws ∧
      (ws = [] ∧ f = .empty ∨ ∃ mark : String, ws = [mark.toList] ∧ parseMark mark = some f) := by
  constructor
  · intro h
    rw [parseState] at h
    split at h
    · next label hwords =>
        obtain ⟨rfl, rfl⟩ := Prod.mk.inj (Option.some.inj h)
        exact ⟨_, Text.map_ofList_eq_iff.1 hwords, .inl ⟨rfl, rfl⟩⟩
    · next label mark hwords =>
        obtain ⟨flags, hmark, hpair⟩ := Option.map_eq_some_iff.1 h
        obtain ⟨rfl, rfl⟩ := Prod.mk.inj hpair
        exact ⟨_, Text.map_ofList_eq_iff.1 hwords, .inr ⟨mark, rfl, hmark⟩⟩
    · cases h
  · rintro ⟨ws, hwords, ⟨rfl, rfl⟩ | ⟨mark, rfl, hmark⟩⟩
    · simp [parseState, hwords]
    · simp [parseState, hwords, hmark]

/-- **A state is read** from the texts of this form, and from no others. -/
theorem parseState_eq_some_iff : parseState text = some (q, f) ↔ StateText text q f := by
  have hempty : q.toList ≠ [] ↔ q ≠ "" := not_congr String.toList_eq_nil_iff
  rw [parseState_eq_some_iff_words, StateText]
  constructor
  · rintro ⟨ws, hwords, hmarks⟩
    obtain ⟨hne, hfilled, before, behind, htext, hbefore, hhead, rfl⟩ := Text.words_eq_cons_iff.1 hwords
    exact ⟨hempty.1 hne, hfilled, before, behind, htext, hbefore, marksText_iff.2 ⟨hhead, hmarks⟩⟩
  · rintro ⟨hne, hfilled, before, behind, htext, hbefore, hmarks⟩
    obtain ⟨hhead, hmarks⟩ := marksText_iff.1 hmarks
    refine ⟨_, Text.words_eq_cons_iff.2 ?_, hmarks⟩
    exact ⟨hempty.2 hne, hfilled, before, behind, htext, hbefore, hhead, rfl⟩

/-! ## Edges -/

/-- The text is the source, the symbol and the target, with commas between them and nowhere else. -/
def EdgeText (text : String) (e : Edge) : Prop := Text.HasFields text [e.source, e.symbol, e.target]

/-- **An edge is read** from the texts of this form, and from no others. -/
theorem parseEdge_eq_some_iff : parseEdge text = some e ↔ EdgeText text e := by
  rw [EdgeText, ← Text.map_splitOn_eq_iff (List.cons_ne_nil _ _)]
  constructor
  · intro h
    rw [parseEdge] at h
    split at h
    · next source symbol target hfields =>
        obtain rfl := Option.some.inj h
        exact hfields
    · cases h
  · intro hfields
    rw [parseEdge, hfields]

/-- The texts with an edge are those with two commas. -/
lemma exists_parseEdge_iff : (∃ e, parseEdge text = some e) ↔ text.toList.count ',' = 2 := by
  have hcount : text.toList.count ',' = 2 ↔
      ((text.toList.splitOn ',').map String.ofList).length = 3 := by
    rw [List.length_map, Text.length_splitOn, Nat.add_left_inj (n := 1)]
  rw [hcount, List.length_eq_three]
  constructor
  · rintro ⟨e, he⟩
    have hfields : Text.HasFields text [e.source, e.symbol, e.target] := parseEdge_eq_some_iff.1 he
    exact ⟨_, _, _, (Text.map_splitOn_eq_iff (List.cons_ne_nil _ _)).2 hfields⟩
  · rintro ⟨source, symbol, target, hfields⟩
    exact ⟨⟨source, symbol, target⟩, by rw [parseEdge, hfields]⟩

end FiniteAutomata.Automaton
