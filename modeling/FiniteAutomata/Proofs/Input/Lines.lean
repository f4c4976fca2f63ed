import FiniteAutomata.Input
import FiniteAutomata.Proofs.Basic
import FiniteAutomata.Proofs.Text.Cutting

/-!
# Lines of an input

Lines that are written one behind the other, each ended by a line feed, are the lines that are read,
except that a carriage return at the end of a line is taken for a part of the line's end.  Readers that
pass over blank lines get the others in their order.

* `withoutReturn` — a line as it is read after it has been written.
* `EndsFilled` — lines that are read as they are written.
* **`ofString_join`** — reading what has been written line by line.
* `not_mem_toList_of_mem_lines` — a line that has been read has no line feed in it.
* `map_text_filled` — the lines that are not blank.
-/

namespace FiniteAutomata

/-- The line without one carriage return at its end, if it ends in one. -/
def withoutReturn (line : String) : String := String.ofList (Text.dropTrailing '\r' line.toList)

variable {line : String} {lines : List String}

lemma withoutReturn_of_getLast?_ne (h : line.toList.getLast? ≠ some '\r') :
    withoutReturn line = line := by
  rw [withoutReturn, Text.dropTrailing_of_getLast?_ne h, String.ofList_toList]

/-- Either the line does not end in a carriage return and nothing is taken away, or one is. -/
lemma withoutReturn_cases (line : String) :
    line.toList.getLast? ≠ some '\r' ∧ withoutReturn line = line ∨
      line = withoutReturn line ++ "\r" := by
  by_cases h : line.toList.getLast? = some '\r'
  · obtain ⟨cs, hcs⟩ := List.getLast?_eq_some_iff.1 h
    refine .inr (String.toList_inj.1 ?_)
    rw [String.toList_append, withoutReturn, String.toList_ofList, hcs, Text.dropTrailing_concat]
    rfl
  · exact .inl ⟨h, withoutReturn_of_getLast?_ne h⟩

/-- A carriage return is white space, so without it a line is as blank as with it. -/
lemma isBlankText_withoutReturn (line : String) :
    Text.isBlankText (withoutReturn line) = Text.isBlankText line := by
  rcases withoutReturn_cases line with ⟨-, h⟩ | h
  · rw [h]
  · have hreturn : Text.isBlank '\r' = true := rfl
    conv_rhs => rw [h]
    simp [Text.isBlankText, hreturn]

/-! ## Lines that end in more than white space -/

/-- The last character of the line is no white space. -/
def EndsFilled (line : String) : Prop :=
  ∃ c, line.toList.getLast? = some c ∧ Text.isBlank c = false

/-- A text that is not empty and holds no white space does not end in white space. -/
lemma endsFilled_of_not_blank (hne : line ≠ "") (h : ∀ c ∈ line.toList, Text.isBlank c = false) :
    EndsFilled line := by
  have hchars : line.toList ≠ [] := fun hnil => hne (String.toList_eq_nil_iff.1 hnil)
  exact ⟨_, List.getLast?_eq_some_getLast hchars, h _ (List.getLast_mem hchars)⟩

namespace EndsFilled

lemma append (h : EndsFilled line) (before : String) : EndsFilled (before ++ line) := by
  obtain ⟨c, hc, hblank⟩ := h
  refine ⟨c, ?_, hblank⟩
  rw [String.toList_append, List.getLast?_append, hc, Option.some_or]

lemma withoutReturn_eq (h : EndsFilled line) : withoutReturn line = line := by
  obtain ⟨c, hc, hblank⟩ := h
  refine withoutReturn_of_getLast?_ne fun hreturn => ?_
  rw [hc, Option.some.injEq] at hreturn
  rw [hreturn] at hblank
  cases hblank

lemma isBlankText_eq (h : EndsFilled line) : Text.isBlankText line = false := by
  obtain ⟨c, hc, hblank⟩ := h
  exact List.all_eq_false.2 ⟨c, List.mem_of_getLast? hc, by simp [hblank]⟩

end EndsFilled

namespace Input

/-- **Lines that are written one behind the other are read again.** -/
theorem ofString_join (h : ∀ line ∈ lines, '\n' ∉ line.toList) :
    ofString (String.join (lines.map (· ++ "\n"))) = ⟨lines.map withoutReturn, none⟩ := by
  have htext : (String.join (lines.map (· ++ "\n"))).toList =
      (lines.map String.toList).flatMap (· ++ ['\n']) := by
    simp [String.toList_join, List.flatMap_map]
  have hfeed : ∀ line ∈ lines.map String.toList, '\n' ∉ line := by
    simpa using h
  rw [ofString, htext, Text.cutLines_flatMap_concat hfeed, List.map_map, List.map_map]
  rfl

/-- A line that has been read has no line feed in it. -/
lemma not_mem_toList_of_mem_lines {text : String} (h : line ∈ (ofString text).lines) :
    '\n' ∉ line.toList := by
  obtain ⟨cs, hcs, rfl⟩ := List.mem_map.1 h
  rw [String.toList_ofList]
  exact Text.not_mem_of_mem_cutLines hcs

/-! ## Numbered lines -/

lemma map_text_numberFrom (first : Nat) (lines : List String) :
    (numberFrom first lines).map (·.text) = lines := by
  induction lines generalizing first with
  | nil => rfl
  | cons line lines ih => rw [numberFrom, List.map_cons, ih]

lemma getElem?_numberFrom (first k : Nat) (lines : List String) :
    (numberFrom first lines)[k]? = (lines[k]?).map (⟨first + k, ·⟩) := by
  induction lines generalizing first k with
  | nil => rfl
  | cons line lines ih =>
      cases k with
      | zero => rfl
      | succ k => simp [numberFrom, ih, Nat.add_assoc, Nat.add_comm 1 k]

/-- The line behind `k` others has the number `k + 1`. -/
lemma getElem?_numbered (input : Input) (k : Nat) :
    input.numbered[k]? = (input.lines[k]?).map (⟨k + 1, ·⟩) := by
  rw [numbered, getElem?_numberFrom, Nat.add_comm 1 k]

lemma length_numbered (input : Input) : input.numbered.length = input.lines.length := by
  rw [← List.length_map (·.text), numbered, map_text_numberFrom]

lemma exists_numberFrom_eq_append_cons_iff {first : Nat} {p : List String → Line → Prop} :
    (∃ before line rest, numberFrom first lines = before ++ line :: rest ∧
      p (before.map (·.text)) line) ↔
    ∃ before line rest, lines = before ++ line :: rest ∧ p before ⟨first + before.length, line⟩ := by
  induction lines generalizing first p with
  | nil => simp [numberFrom]
  | cons line lines ih =>
      rw [numberFrom, exists_cons_eq_append_cons_iff (p := fun before l => p (before.map (·.text)) l),
        exists_cons_eq_append_cons_iff (p := fun before l => p before ⟨first + before.length, l⟩)]
      simp only [List.map_cons, List.length_cons]
      rw [ih (p := fun before l => p (line :: before) l)]
      simp only [Nat.add_assoc, Nat.add_comm 1]
      rfl

/-- A line of the input has a number that is by one more than the number of lines before it. -/
lemma exists_numbered_eq_append_cons_iff (input : Input) {p : List String → Line → Prop} :
    (∃ before line rest, input.numbered = before ++ line :: rest ∧ p (before.map (·.text)) line) ↔
    ∃ before line rest, input.lines = before ++ line :: rest ∧ p before ⟨before.length + 1, line⟩ := by
  rw [numbered, exists_numberFrom_eq_append_cons_iff]
  simp only [Nat.add_comm 1]

lemma map_text_filled (input : Input) :
    input.filled.map (·.text) = input.lines.filter fun line => !Text.isBlankText line := by
  have hlines : input.numbered.map (·.text) = input.lines := map_text_numberFrom 1 input.lines
  conv_rhs => rw [← hlines]
  rw [List.filter_map]
  rfl

end Input

end FiniteAutomata
