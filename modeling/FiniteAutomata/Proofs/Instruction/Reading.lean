import FiniteAutomata.Instruction.Reader
import FiniteAutomata.Proofs.Basic
import FiniteAutomata.Proofs.Input.Pieces
import FiniteAutomata.Proofs.Numeral

/-!
# Which texts are instructions

Every line is looked at, the empty ones too, and a line of one character or none is a symbol.  Longer
lines are cut at their commas, and hold an instruction if the first field is a letter and as many indices
follow as the letter takes.  The error on any other line is about the first bad operand if the letter and
the number of the fields fit, and about the whole line if they do not; the first line with an error decides.

* `Writes`, `Offends` — the lines with an instruction, and what is wrong with other lines.
* `parseFields_eq_ok_iff`, `parseFields_eq_error_iff` — lines that have been cut at their commas.
* `parseOperation_eq_ok_iff`, `parseOperation_eq_error_iff` — a single line.
* **`readAll_of_text`** — the reader on every text.
-/

namespace FiniteAutomata

open List (Forall₂)

namespace Instruction

/-! ## What a line looks like -/

/-- The letters of instructions with operands, and how many of them they take. -/
def arities : List (String × Nat) := [("C", 2), ("U", 2), ("I", 1), ("S", 1), ("D", 1)]

/-- What the letters stand for. -/
inductive Means : String → List Nat → Operation → Prop
  | concat (i j : Nat) : Means "C" [i, j] (.concat i j)
  | union (i j : Nat) : Means "U" [i, j] (.union i j)
  | iterate (i : Nat) : Means "I" [i] (.iterate i)
  | star (i : Nat) : Means "S" [i] (.iterate i)
  | identity (i : Nat) : Means "D" [i] (.identity i)

/-- The text of an instruction: nothing or a single space for the empty word, any other character for
itself, or a letter and as many indices as it takes, with commas between them. -/
inductive Writes (text : String) : Operation → Prop
  | epsilon (h : text = "" ∨ text = " ") : Writes text (.symbol epsilon)
  | symbol {c : Char} (hc : c ≠ ' ') (h : text = String.singleton c) : Writes text (.symbol text)
  | fields {letter : String} {operands : List String} {numbers : List Nat} {operation : Operation}
      (htext : Text.HasFields text (letter :: operands)) (hmeans : Means letter numbers operation)
      (hnumbers : Forall₂ Numeral.IsIndex operands numbers) : Writes text operation

/-- The first of several fields that is no index, with what is wrong with it. -/
inductive BadOperand : List String → NumeralError → Prop
  | here {field : String} {rest : List String} {d : NumeralError} (hd : Numeral.NotIndex field d) :
      BadOperand (field :: rest) d
  | later {field : String} {rest : List String} {n : Nat} {d : NumeralError}
      (hn : Numeral.IsIndex field n) (h : BadOperand rest d) : BadOperand (field :: rest) d

/-- What is wrong with a line: an operand, if the letter and the number of the fields fit, and else the
whole line. -/
inductive Offends (line : Line) : InstructionError → Prop
  | operand {letter : String} {operands : List String} {d : NumeralError}
      (htext : Text.HasFields line.text (letter :: operands))
      (hfit : (letter, operands.length) ∈ arities) (hd : BadOperand operands d) :
      Offends line (.operand line.number d)
  | invalid {letter : String} {operands : List String} (hlong : 1 < line.text.length)
      (htext : Text.HasFields line.text (letter :: operands))
      (hfit : (letter, operands.length) ∉ arities) : Offends line (.invalid line)

/-! ## Fields -/

variable {line : Line} {field letter : String} {operands : List String} {operation : Operation}
  {n : Nat} {d : NumeralError} {e : InstructionError}

lemma parseOperand_eq_ok_iff : parseOperand line field = .ok n ↔ Numeral.IsIndex field n := by
  rw [← Numeral.parseIndex_eq_ok_iff, parseOperand]
  cases Numeral.parseIndex field <;> simp [Except.mapError]

lemma parseOperand_eq_error_iff :
    parseOperand line field = .error e ↔ ∃ d, Numeral.NotIndex field d ∧ e = .operand line.number d := by
  simp only [← Numeral.parseIndex_eq_error_iff]
  rw [parseOperand]
  cases Numeral.parseIndex field <;> simp [Except.mapError, eq_comm]

lemma badOperand_cons_iff :
    BadOperand (field :: operands) d ↔
      Numeral.NotIndex field d ∨ (∃ n, Numeral.IsIndex field n) ∧ BadOperand operands d := by
  constructor
  · rintro (hd | ⟨hn, h⟩)
    · exact .inl hd
    · exact .inr ⟨⟨_, hn⟩, h⟩
  · rintro (hd | ⟨⟨n, hn⟩, h⟩)
    · exact .here hd
    · exact .later hn h

lemma not_badOperand_nil : ¬ BadOperand [] d := by
  rintro ⟨⟩

/-! ### Two operands and one -/

lemma readPair_eq_ok_iff {left right : String} {make : Nat → Nat → Operation} :
    (do return make (← parseOperand line left) (← parseOperand line right)) = .ok operation ↔
      ∃ i j, Numeral.IsIndex left i ∧ Numeral.IsIndex right j ∧ make i j = operation := by
  simp [bind_eq_ok_iff, parseOperand_eq_ok_iff, pure, Except.pure]

/-- Of two bad operands the left one is the error. -/
lemma readPair_eq_error_iff {left right : String} {make : Nat → Nat → Operation} :
    (do return make (← parseOperand line left) (← parseOperand line right)) = .error e ↔
      ∃ d, BadOperand [left, right] d ∧ e = .operand line.number d := by
  simp only [bind_eq_error_iff, parseOperand_eq_ok_iff, parseOperand_eq_error_iff, badOperand_cons_iff,
    not_badOperand_nil, and_false, or_false, pure, Except.pure, reduceCtorEq, exists_false, or_and_right,
    exists_or]
  refine or_congr_right ⟨?_, ?_⟩
  · rintro ⟨i, hi, d, hd, rfl⟩
    exact ⟨d, ⟨⟨i, hi⟩, hd⟩, rfl⟩
  · rintro ⟨d, ⟨⟨i, hi⟩, hd⟩, rfl⟩
    exact ⟨i, hi, d, hd, rfl⟩

lemma readOne_eq_ok_iff {make : Nat → Operation} :
    (do return make (← parseOperand line field)) = .ok operation ↔
      ∃ i, Numeral.IsIndex field i ∧ make i = operation := by
  simp [bind_eq_ok_iff, parseOperand_eq_ok_iff, pure, Except.pure]

lemma readOne_eq_error_iff {make : Nat → Operation} :
    (do return make (← parseOperand line field)) = .error e ↔
      ∃ d, BadOperand [field] d ∧ e = .operand line.number d := by
  simp [bind_eq_error_iff, parseOperand_eq_error_iff, badOperand_cons_iff, not_badOperand_nil, pure,
    Except.pure]

/-! ### All fields -/

/-- A letter with as many fields as it takes. -/
lemma fits_cases (h : (letter, operands.length) ∈ arities) :
    (∃ left right, operands = [left, right] ∧ (letter = "C" ∨ letter = "U")) ∨
      ∃ operand, operands = [operand] ∧ (letter = "I" ∨ letter = "S" ∨ letter = "D") := by
  simp only [arities, List.mem_cons, Prod.mk.injEq, List.not_mem_nil, or_false, List.length_eq_two,
    List.length_eq_one_iff] at h
  rcases h with ⟨rfl, left, right, rfl⟩ | ⟨rfl, left, right, rfl⟩ | ⟨rfl, operand, rfl⟩ |
    ⟨rfl, operand, rfl⟩ | ⟨rfl, operand, rfl⟩ <;> simp

lemma parseFields_of_not_fits (h : (letter, operands.length) ∉ arities) :
    parseFields line (letter :: operands) = .error (.invalid line) := by
  rw [parseFields.eq_def]
  split
  case h_6 => rfl
  all_goals
    next heq =>
      obtain ⟨rfl, rfl⟩ := List.cons.inj heq
      exact absurd (by simp [arities]) h

lemma Means.fits {numbers : List Nat} (h : Means letter numbers operation) :
    (letter, numbers.length) ∈ arities := by
  cases h <;> simp [arities]

/-- Fields that have been cut apart are read as the letter says. -/
lemma parseFields_eq_ok_iff :
    parseFields line (letter :: operands) = .ok operation ↔
      ∃ numbers, Means letter numbers operation ∧ Forall₂ Numeral.IsIndex operands numbers := by
  constructor
  · intro h
    by_cases hfit : (letter, operands.length) ∈ arities
    · rcases fits_cases hfit with ⟨left, right, rfl, rfl | rfl⟩ | ⟨operand, rfl, rfl | rfl | rfl⟩
      · obtain ⟨i, j, hi, hj, rfl⟩ := readPair_eq_ok_iff.1 h
        exact ⟨_, .concat i j, .cons hi (.cons hj .nil)⟩
      · obtain ⟨i, j, hi, hj, rfl⟩ := readPair_eq_ok_iff.1 h
        exact ⟨_, .union i j, .cons hi (.cons hj .nil)⟩
      · obtain ⟨i, hi, rfl⟩ := readOne_eq_ok_iff.1 h
        exact ⟨_, .iterate i, .cons hi .nil⟩
      · obtain ⟨i, hi, rfl⟩ := readOne_eq_ok_iff.1 h
        exact ⟨_, .star i, .cons hi .nil⟩
      · obtain ⟨i, hi, rfl⟩ := readOne_eq_ok_iff.1 h
        exact ⟨_, .identity i, .cons hi .nil⟩
    · rw [parseFields_of_not_fits hfit] at h
      cases h
  · rintro ⟨_, ⟨i, j⟩ | ⟨i, j⟩ | i | i | i, hnumbers⟩
    case concat | union =>
      obtain ⟨left, _, hi, hrest, rfl⟩ := List.forall₂_cons_right_iff.1 hnumbers
      obtain ⟨right, _, hj, hnil, rfl⟩ := List.forall₂_cons_right_iff.1 hrest
      obtain rfl := List.forall₂_nil_right_iff.1 hnil
      exact readPair_eq_ok_iff.2 ⟨i, j, hi, hj, rfl⟩
    case iterate | star | identity =>
      obtain ⟨operand, _, hi, hnil, rfl⟩ := List.forall₂_cons_right_iff.1 hnumbers
      obtain rfl := List.forall₂_nil_right_iff.1 hnil
      exact readOne_eq_ok_iff.2 ⟨i, hi, rfl⟩

lemma parseFields_eq_error_iff :
    parseFields line (letter :: operands) = .error e ↔
      (letter, operands.length) ∈ arities ∧
          (∃ d, BadOperand operands d ∧ e = .operand line.number d) ∨
        (letter, operands.length) ∉ arities ∧ e = .invalid line := by
  by_cases hfit : (letter, operands.length) ∈ arities
  · rw [and_iff_right hfit, or_iff_left fun h => h.1 hfit]
    rcases fits_cases hfit with ⟨left, right, rfl, rfl | rfl⟩ | ⟨operand, rfl, rfl | rfl | rfl⟩
    · exact readPair_eq_error_iff
    · exact readPair_eq_error_iff
    · exact readOne_eq_error_iff
    · exact readOne_eq_error_iff
    · exact readOne_eq_error_iff
  · rw [or_iff_right fun h => hfit h.1, and_iff_right hfit, parseFields_of_not_fits hfit,
      Except.error.injEq, eq_comm]

/-! ## Single lines -/

lemma exists_hasFields (text : String) :
    ∃ letter operands, Text.HasFields text (letter :: operands) := by
  have hne : (text.toList.splitOn ',').map String.ofList ≠ [] := by
    simp
  obtain ⟨letter, operands, hfields⟩ := List.exists_cons_of_ne_nil hne
  exact ⟨letter, operands, (Text.map_splitOn_eq_iff (List.cons_ne_nil _ _)).1 hfields⟩

/-- A letter and what it takes are more than one character. -/
lemma one_lt_length_of_fits {text : String} (h : Text.HasFields text (letter :: operands))
    (hfit : (letter, operands.length) ∈ arities) : 1 < text.length := by
  obtain ⟨rfl, -⟩ := h
  rcases fits_cases hfit with ⟨left, right, rfl, rfl | rfl⟩ | ⟨operand, rfl, rfl | rfl | rfl⟩ <;>
    simp [← String.length_toList]

/-- A line of several characters is read field by field. -/
lemma parseOperation_of_hasFields (hlong : 1 < line.text.length)
    (h : Text.HasFields line.text (letter :: operands)) :
    parseOperation line = parseFields line (letter :: operands) := by
  rw [← String.length_toList] at hlong
  rw [parseOperation]
  split
  · next hnil => simp [hnil] at hlong
  · next c hsingle => simp [hsingle] at hlong
  · rw [(Text.map_splitOn_eq_iff (List.cons_ne_nil _ _)).2 h]

/-- A line of one character or none is a symbol, whatever the character is. -/
lemma exists_parseOperation_of_short (h : ¬ 1 < line.text.length) :
    ∃ operation, parseOperation line = .ok operation ∧ Writes line.text operation := by
  rw [parseOperation]
  rcases hcs : line.text.toList with _ | ⟨c, _ | ⟨d, cs⟩⟩
  · exact ⟨_, rfl, .epsilon (.inl (String.toList_eq_nil_iff.1 hcs))⟩
  · have htext : line.text = String.singleton c := by
      rw [← String.toList_inj, hcs, String.toList_singleton]
    refine ⟨_, rfl, ?_⟩
    split_ifs with hc
    · exact .epsilon (.inr (by rw [htext, hc]; rfl))
    · rw [← htext]
      exact .symbol hc htext
  · simp [← String.length_toList, hcs] at h

/-- **An instruction is read** from the texts of this form, and from no others. -/
theorem parseOperation_eq_ok_iff : parseOperation line = .ok operation ↔ Writes line.text operation := by
  constructor
  · intro h
    by_cases hlong : 1 < line.text.length
    · obtain ⟨letter, operands, hfields⟩ := exists_hasFields line.text
      rw [parseOperation_of_hasFields hlong hfields] at h
      obtain ⟨numbers, hmeans, hnumbers⟩ := parseFields_eq_ok_iff.1 h
      exact .fields hfields hmeans hnumbers
    · obtain ⟨read, hread, hwrites⟩ := exists_parseOperation_of_short hlong
      rw [hread] at h
      obtain rfl := Except.ok.inj h
      exact hwrites
  · rintro ((hempty | hspace) | ⟨hc, hsymbol⟩ | ⟨hfields, hmeans, hnumbers⟩)
    · rw [parseOperation, hempty]
      rfl
    · rw [parseOperation, hspace]
      rfl
    · rw [parseOperation, hsymbol, String.toList_singleton]
      simp [hc]
    · have hlong := one_lt_length_of_fits hfields (hnumbers.length_eq ▸ hmeans.fits)
      rw [parseOperation_of_hasFields hlong hfields]
      exact parseFields_eq_ok_iff.2 ⟨_, hmeans, hnumbers⟩

/-- **The error on any other line** names an operand or the line. -/
theorem parseOperation_eq_error_iff : parseOperation line = .error e ↔ Offends line e := by
  constructor
  · intro h
    by_cases hlong : 1 < line.text.length
    · obtain ⟨letter, operands, hfields⟩ := exists_hasFields line.text
      rw [parseOperation_of_hasFields hlong hfields, parseFields_eq_error_iff] at h
      rcases h with ⟨hfit, d, hd, rfl⟩ | ⟨hfit, rfl⟩
      · exact .operand hfields hfit hd
      · exact .invalid hlong hfields hfit
    · obtain ⟨read, hread, -⟩ := exists_parseOperation_of_short hlong
      rw [hread] at h
      cases h
  · rintro (⟨hfields, hfit, hd⟩ | ⟨hlong, hfields, hfit⟩)
    · rw [parseOperation_of_hasFields (one_lt_length_of_fits hfields hfit) hfields]
      exact parseFields_eq_error_iff.2 (.inl ⟨hfit, _, hd, rfl⟩)
    · rw [parseOperation_of_hasFields hlong hfields]
      exact parseFields_eq_error_iff.2 (.inr ⟨hfit, rfl⟩)

end Instruction

/-! ## All lines -/

/-- The line holds an instruction. -/
def Line.HoldsOperation (line : Line) : Prop :=
  ∃ operation, Instruction.parseOperation line = .ok operation

lemma Line.holdsOperation_iff {line : Line} :
    line.HoldsOperation ↔ ∃ operation, Instruction.Writes line.text operation := by
  simp only [HoldsOperation, Instruction.parseOperation_eq_ok_iff]

namespace Instruction

variable {lines : List Line} {program : List Instruction} {input : Input} {e : InstructionError}

lemma readLines_eq_ok_iff :
    readLines lines = .ok program ↔
      List.Forall₂ (fun line i => ∃ operation, parseOperation line = .ok operation ∧
        i = ⟨operation, none⟩) lines program := by
  induction lines generalizing program with
  | nil => simp [readLines, eq_comm]
  | cons line lines ih =>
      rw [readLines, bind_eq_ok_iff, List.forall₂_cons_left_iff]
      constructor
      · rintro ⟨operation, hoperation, h⟩
        obtain ⟨others, hothers, h⟩ := bind_eq_ok_iff.1 h
        exact ⟨_, others, ⟨operation, hoperation, rfl⟩, ih.1 hothers, (Except.ok.inj h).symm⟩
      · rintro ⟨_, others, ⟨operation, hoperation, rfl⟩, hothers, rfl⟩
        exact ⟨operation, hoperation, bind_eq_ok_iff.2 ⟨others, ih.2 hothers, rfl⟩⟩

/-- The reader succeeds on inputs that end where they should and hold nothing but instructions. -/
lemma readAll_eq_ok_iff :
    readAll input = .ok program ↔
      input.error = none ∧ List.Forall₂ (fun line i => ∃ operation,
        parseOperation line = .ok operation ∧ i = ⟨operation, none⟩) input.numbered program := by
  rw [readAll, bind_eq_ok_iff]
  simp only [readLines_eq_ok_iff]
  cases input.error with
  | none => simp [pure, Except.pure]
  | some error => simp

lemma readLines_eq_error_iff :
    readLines lines = .error e ↔ ∃ before line rest, lines = before ++ line :: rest ∧
      (∀ line ∈ before, line.HoldsOperation) ∧ parseOperation line = .error e := by
  induction lines with
  | nil => simp [readLines]
  | cons line lines ih =>
      rw [readLines, exists_cons_eq_append_cons_iff, bind_eq_error_iff]
      cases hparse : parseOperation line with
      | error d => simp [Line.HoldsOperation, hparse]
      | ok operation =>
          have hline : line.HoldsOperation := ⟨operation, hparse⟩
          simp [hline, bind_eq_error_iff, ih, pure, Except.pure]

lemma exists_readLines_iff :
    (∃ program, readLines lines = .ok program) ↔ ∀ line ∈ lines, line.HoldsOperation := by
  simp only [readLines_eq_ok_iff]
  rw [← forall_exists_iff_forall₂]
  refine forall₂_congr fun line _ => ⟨?_, ?_⟩
  · rintro ⟨_, operation, hoperation, -⟩
    exact ⟨operation, hoperation⟩
  · rintro ⟨operation, hoperation⟩
    exact ⟨_, operation, hoperation, rfl⟩

lemma exists_readAll_iff :
    (∃ program, readAll input = .ok program) ↔
      input.error = none ∧ ∀ line ∈ input.numbered, line.HoldsOperation := by
  simp only [readAll_eq_ok_iff, exists_and_left, ← readLines_eq_ok_iff, exists_readLines_iff]

/-- The error is that of the first line that holds no instruction or, if there is none, what the input
breaks off with. -/
lemma readAll_eq_error_iff :
    readAll input = .error e ↔
      (∃ before line rest, input.numbered = before ++ line :: rest ∧
        (∀ line ∈ before, line.HoldsOperation) ∧ parseOperation line = .error e) ∨
      (∀ line ∈ input.numbered, line.HoldsOperation) ∧
        ∃ error, input.error = some error ∧ e = .interrupted error := by
  rw [readAll, bind_eq_error_iff, readLines_eq_error_iff, ← exists_readLines_iff]
  cases input.error with
  | none => simp [pure, Except.pure]
  | some error => simp [eq_comm]

/-- What is read from lines behind which nothing is missing. -/
lemma readAll_lines (lines : List String) :
    (∀ program, readAll ⟨lines, none⟩ = .ok program ↔
      Forall₂ (fun line instruction => Writes line instruction.operation ∧ instruction.text = none)
        lines program) ∧
    ((∃ program, readAll ⟨lines, none⟩ = .ok program) ↔
      ∀ line ∈ lines, ∃ operation, Writes line operation) ∧
    ∀ e, readAll ⟨lines, none⟩ = .error e ↔
      ∃ before line rest, lines = before ++ line :: rest ∧
        (∀ line ∈ before, ∃ operation, Writes line operation) ∧
          Offends ⟨before.length + 1, line⟩ e := by
  have hlines : (Input.mk lines none).numbered.map (·.text) = lines := Input.map_text_numberFrom 1 _
  refine ⟨fun program => ?_, ?_, fun e => ?_⟩
  · have hline : ∀ (line : Line) (i : Instruction),
        (∃ operation, parseOperation line = .ok operation ∧ i = ⟨operation, none⟩) ↔
          Writes line.text i.operation ∧ i.text = none := by
      rintro line ⟨operation, text⟩
      simp [parseOperation_eq_ok_iff]
    rw [readAll_eq_ok_iff, and_iff_right rfl]
    conv_rhs => rw [← hlines, List.forall₂_map_left_iff]
    simp only [hline]
  · rw [exists_readAll_iff, and_iff_right rfl]
    conv_rhs => rw [← hlines, List.forall_mem_map]
    simp only [Line.holdsOperation_iff]
  · have hnone : ¬ ∃ error, (Input.mk lines none).error = some error ∧ e = .interrupted error := by
      rintro ⟨_, ⟨⟩, -⟩
    have hfirst := Input.exists_numbered_eq_append_cons_iff ⟨lines, none⟩
      (p := fun before line => (∀ text ∈ before, ∃ operation, Writes text operation) ∧ Offends line e)
    rw [readAll_eq_error_iff, or_iff_left fun h => hnone h.2]
    simp only [Line.holdsOperation_iff, parseOperation_eq_error_iff]
    simpa only [List.forall_mem_map] using hfirst

/-- **The reader on every text**, of which the lines are the pieces between its line feeds without their
ends. It succeeds if every line holds an instruction, and the instructions are those of the lines, without
the texts of their expressions. Otherwise the error is that of the first line that holds none. -/
theorem readAll_of_text (text : String) :
    ∃ pieces : List (List Char), (∀ others, CutBehind '\n' text.toList others ↔ others = pieces) ∧
      ∃ lines : List String, (∀ others, HasLines pieces others ↔ others = lines) ∧
        (∀ program, readAll (.ofBytes text.toUTF8) = .ok program ↔
          Forall₂ (fun line instruction => Writes line instruction.operation ∧ instruction.text = none)
            lines program) ∧
        ((∃ program, readAll (.ofBytes text.toUTF8) = .ok program) ↔
          ∀ line ∈ lines, ∃ operation, Writes line operation) ∧
        ∀ e, readAll (.ofBytes text.toUTF8) = .error e ↔
          ∃ before line rest, lines = before ++ line :: rest ∧
            (∀ line ∈ before, ∃ operation, Writes line operation) ∧
              Offends ⟨before.length + 1, line⟩ e := by
  obtain ⟨pieces, hpieces, lines, hlines, hinput⟩ := exists_lines text
  refine ⟨pieces, hpieces, lines, hlines, ?_⟩
  rw [hinput]
  exact readAll_lines lines

/-- A letter and a comma that stand alone are symbols, and an empty line counts. -/
example :
    readAll (.ofString "C\n,\n\nU, 01,2 \r\nI,0\nC,1") = .error (.operand 5 (.zero "0")) := by
  decide +kernel

end Instruction

end FiniteAutomata
