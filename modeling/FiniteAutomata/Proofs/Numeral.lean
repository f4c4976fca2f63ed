import FiniteAutomata.Numeral
import FiniteAutomata.Proofs.Text.Cutting
import Std.Data.String.ToNat

/-!
# Numbers in texts

A number is written as its digits, which are neither separators nor white space, so it can be found
among other text and read back.  Other texts denote numbers as well, with zeros in front of the digits and
white space around them; these are the texts that are read, up to the limit.

* `toString_nat_injective`, `isDigit_of_mem_toString` — the digits of a number.
* `Numeral.Denotes`, `IsCount`, `IsIndex` — texts that denote numbers; `NotCount`, `NotIndex` — why other
  texts are refused.
* **`Numeral.parse_eq_ok_iff`, `parse_eq_error_iff`** — which texts are counts, and the error on others;
  `parseIndex_eq_ok_iff`, `parseIndex_eq_error_iff` — the same for indices.
* **`Numeral.parse_toString`** — reading what has been written.
-/

namespace FiniteAutomata

variable {c : Char} {m n : Nat}

lemma toList_toString_nat (n : Nat) : (toString n).toList = Nat.toDigits 10 n :=
  Nat.toList_repr

lemma isDigit_of_mem_toString (h : c ∈ (toString n).toList) : c.isDigit = true := by
  rw [toList_toString_nat] at h
  exact Nat.isDigit_of_mem_toDigits (by decide) (by decide) h

lemma toString_nat_injective (h : (toString m).toList = (toString n).toList) : m = n :=
  Nat.repr_injective (String.toList_inj.1 h)

lemma not_isBlank_of_isDigit (h : c.isDigit = true) : Text.isBlank c = false := by
  have hbounds : 48 ≤ c.toNat ∧ c.toNat ≤ 57 := Char.isDigit_iff_toNat.1 h
  simp only [Text.isBlank, Bool.or_eq_false_iff, Bool.and_eq_false_iff, decide_eq_false_iff_not,
    beq_eq_false_iff_ne]
  omega

/-- A written number holds no white space. -/
lemma not_isBlank_of_mem_toString (h : c ∈ (toString n).toList) : Text.isBlank c = false :=
  not_isBlank_of_isDigit (isDigit_of_mem_toString h)

namespace Numeral

variable {text : String} {d : NumeralError}

/-! ## Texts that denote numbers -/

/-- The text is a run of digits, with white space around it or none, and the value of the run is `n`. -/
def Denotes (text : String) (n : Nat) : Prop :=
  ∃ before digits behind, text.toList = before ++ (digits ++ behind) ∧
    (∀ c ∈ before, Text.isBlank c = true) ∧ (∀ c ∈ behind, Text.isBlank c = true) ∧
      digits ≠ [] ∧ (∀ c ∈ digits, c.isDigit = true) ∧ Nat.ofDigitChars 10 digits 0 = n

/-- The text denotes a number below the limit. -/
def IsCount (text : String) (n : Nat) : Prop := Denotes text n ∧ n < limit

/-- The text denotes a number below the limit that is not zero. -/
def IsIndex (text : String) (n : Nat) : Prop := Denotes text n ∧ 0 < n ∧ n < limit

/-- Why a text is no count: it denotes no number, or one that is too large. -/
inductive NotCount (text : String) : NumeralError → Prop
  | malformed (h : ∀ n, ¬ Denotes text n) : NotCount text (.malformed text)
  | tooLarge {n : Nat} (h : Denotes text n) (hn : limit ≤ n) : NotCount text .tooLarge

/-- Why a text is no index: it is no count, or the count is zero. -/
inductive NotIndex (text : String) : NumeralError → Prop
  | notCount {d : NumeralError} (h : NotCount text d) : NotIndex text d
  | zero (h : Denotes text 0) : NotIndex text (.zero text)

/-- What a text denotes stands between the white space at its ends. -/
lemma denotes_iff_trim :
    Denotes text n ↔ Text.trim text.toList ≠ [] ∧
      (∀ c ∈ Text.trim text.toList, c.isDigit = true) ∧
        Nat.ofDigitChars 10 (Text.trim text.toList) 0 = n := by
  constructor
  · rintro ⟨before, digits, behind, htext, hbefore, hbehind, hne, hdigits, rfl⟩
    have hword : Text.words text.toList = [digits] :=
      Text.words_eq_singleton_iff.2 ⟨hne, fun c hc => not_isBlank_of_isDigit (hdigits c hc),
        before, behind, htext, hbefore, hbehind⟩
    rw [Text.trim_of_words hword]
    exact ⟨hne, hdigits, rfl⟩
  · rintro ⟨hne, hdigits, hvalue⟩
    obtain ⟨before, behind, htext, hbefore, hbehind⟩ := Text.exists_eq_append_trim text.toList
    exact ⟨before, _, behind, htext, hbefore, hbehind, hne, hdigits, hvalue⟩

/-- A number is denoted by its digits. -/
lemma denotes_toString (n : Nat) : Denotes (toString n) n := by
  refine ⟨[], Nat.toDigits 10 n, [], ?_, by simp, by simp, Nat.toDigits_ne_nil, fun c hc => ?_,
    Nat.ofDigitChars_toDigits (by decide) (by decide)⟩
  · rw [List.append_nil, List.nil_append, toList_toString_nat]
  · exact Nat.isDigit_of_mem_toDigits (by decide) (by decide) hc

/-- A text denotes one number at most. -/
lemma Denotes.unique (hm : Denotes text m) (hn : Denotes text n) : m = n :=
  (denotes_iff_trim.1 hm).2.2.symm.trans (denotes_iff_trim.1 hn).2.2

/-! ## Counts -/

lemma parse_eq_of_denotes (h : Denotes text n) :
    parse text = if n < limit then .ok n else .error .tooLarge := by
  obtain ⟨hne, hdigits, rfl⟩ := denotes_iff_trim.1 h
  rw [parse, if_neg]
  simpa [hne] using hdigits

lemma parse_eq_of_not_denotes (h : ∀ n, ¬ Denotes text n) : parse text = .error (.malformed text) := by
  rw [parse, if_pos]
  by_contra hnot
  simp only [Bool.or_eq_true, not_or, Bool.not_eq_true, List.isEmpty_eq_false_iff, List.any_eq_false,
    Bool.not_eq_true', Bool.not_eq_false] at hnot
  exact h _ (denotes_iff_trim.2 ⟨hnot.1, hnot.2, rfl⟩)

/-- **Reading a count** gives the number that the text denotes, if it is below the limit. -/
theorem parse_eq_ok_iff : parse text = .ok n ↔ IsCount text n := by
  rw [IsCount]
  by_cases h : ∃ m, Denotes text m
  · obtain ⟨m, h⟩ := h
    rw [parse_eq_of_denotes h]
    constructor
    · intro hread
      split_ifs at hread with hlt
      obtain rfl := Except.ok.inj hread
      exact ⟨h, hlt⟩
    · rintro ⟨hn, hlt⟩
      obtain rfl := h.unique hn
      exact if_pos hlt
  · rw [parse_eq_of_not_denotes (not_exists.1 h)]
    exact iff_of_false (by rintro ⟨⟩) fun hn => h ⟨n, hn.1⟩

/-- **Reading a count fails** on every other text, and the error says why. -/
theorem parse_eq_error_iff : parse text = .error d ↔ NotCount text d := by
  constructor
  · intro hread
    by_cases h : ∃ n, Denotes text n
    · obtain ⟨n, h⟩ := h
      rw [parse_eq_of_denotes h] at hread
      split_ifs at hread with hlt
      obtain rfl := Except.error.inj hread
      exact .tooLarge h (Nat.le_of_not_lt hlt)
    · rw [parse_eq_of_not_denotes (not_exists.1 h)] at hread
      obtain rfl := Except.error.inj hread
      exact .malformed (not_exists.1 h)
  · rintro (h | ⟨h, hn⟩)
    · exact parse_eq_of_not_denotes h
    · rw [parse_eq_of_denotes h, if_neg (Nat.not_lt.2 hn)]

/-- No number that is read reaches the limit. -/
lemma lt_limit_of_parse (h : parse text = .ok n) : n < limit := (parse_eq_ok_iff.1 h).2

/-- **A number below the limit is read as it is written.** -/
theorem parse_toString (h : n < limit) : parse (toString n) = .ok n :=
  parse_eq_ok_iff.2 ⟨denotes_toString n, h⟩

/-! ## Indices -/

/-- **Reading an index** gives a count that is not zero. -/
theorem parseIndex_eq_ok_iff : parseIndex text = .ok n ↔ IsIndex text n := by
  rw [parseIndex, IsIndex]
  split
  · next hzero =>
      refine iff_of_false (by rintro ⟨⟩) fun ⟨h, hpos, hlt⟩ => ?_
      rw [parse_eq_ok_iff.2 ⟨h, hlt⟩] at hzero
      exact absurd (Except.ok.inj hzero) hpos.ne'
  · next hne =>
      rw [parse_eq_ok_iff, IsCount]
      refine and_congr_right fun h => (and_iff_right_of_imp fun hlt => Nat.pos_of_ne_zero ?_).symm
      rintro rfl
      exact hne (parse_eq_ok_iff.2 ⟨h, hlt⟩)

/-- Reading an index fails where reading a count does, and on zero. -/
theorem parseIndex_eq_error_iff : parseIndex text = .error d ↔ NotIndex text d := by
  rw [parseIndex]
  split
  · next hzero =>
      have hdenotes : Denotes text 0 := (parse_eq_ok_iff.1 hzero).1
      constructor
      · intro h
        obtain rfl := Except.error.inj h
        exact .zero hdenotes
      · rintro (h | -)
        · rw [parse_eq_error_iff.2 h] at hzero
          cases hzero
        · rfl
  · next hne =>
      constructor
      · exact fun h => .notCount (parse_eq_error_iff.1 h)
      · rintro (h | h)
        · exact parse_eq_error_iff.2 h
        · exact absurd (parse_eq_ok_iff.2 ⟨h, by decide⟩) hne

end Numeral

end FiniteAutomata
