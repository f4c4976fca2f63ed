import FiniteAutomata.Proofs.Numeral
import Mathlib.Data.Nat.Digits.Defs

/-!
# How numbers are spelled

A number is spelled by decimal digits, each of which counts ten times as much as the next one.  It has one
spelling for every number of zeros in front of the digits that it is written with, so no length is too long
for a number.  What can be too large is the value, and a reader that keeps it in a word of 64 bits has to
notice this at the digit where it happens.  Up to there the word holds the value exactly, and from there on
the value only grows, so the rest of the digits cannot bring it back.

* `Numeral.Spells` — the digits of a number, zeros in front of them included.
* **`Numeral.spells_iff_exists_zeros`** — all spellings of a number.
* `Numeral.append?`, **`Numeral.append?_eq_some_iff`** — one more digit behind a number in a word.
* **`Numeral.foldlM_append?_eq_some_iff`** — any number of digits.
* **`Numeral.parse_iff_spells`** — which texts are counts and indices, and what is answered on others.
-/

namespace FiniteAutomata.Numeral

variable {c : Char} {cs : List Char} {digits : List Nat} {d n : Nat} {text : String}

/-! ## Digits -/

/-- The characters are decimal digits, one at least, and in the decimal system they stand for `n`. -/
def Spells (cs : List Char) (n : Nat) : Prop :=
  ∃ digits : List Nat, digits ≠ [] ∧ (∀ d ∈ digits, d < 10) ∧ cs = digits.map Nat.digitChar ∧
    Nat.ofDigits 10 digits.reverse = n

/-- A digit is known by its value. -/
lemma exists_digitChar_eq (h : c.isDigit = true) : ∃ d < 10, c = d.digitChar := by
  have hbounds : 48 ≤ c.toNat ∧ c.toNat ≤ 57 := Char.isDigit_iff_toNat.1 h
  have hlt : c.toNat - 48 < 10 := by omega
  refine ⟨c.toNat - 48, hlt, Char.toNat_inj.1 ?_⟩
  rw [Nat.toNat_digitChar_of_lt_ten hlt]
  omega

lemma exists_map_digitChar_eq (h : ∀ c ∈ cs, c.isDigit = true) :
    ∃ digits : List Nat, (∀ d ∈ digits, d < 10) ∧ cs = digits.map Nat.digitChar := by
  induction cs with
  | nil => exact ⟨[], by simp, rfl⟩
  | cons c cs ih =>
      obtain ⟨hc, hcs⟩ := List.forall_mem_cons.1 h
      obtain ⟨d, hd, rfl⟩ := exists_digitChar_eq hc
      obtain ⟨digits, hdigits, rfl⟩ := ih hcs
      exact ⟨d :: digits, List.forall_mem_cons.2 ⟨hd, hdigits⟩, rfl⟩

/-- Reading the digits one after the other adds up what each contributes by its place. -/
lemma ofDigitChars_map_digitChar (h : ∀ d ∈ digits, d < 10) :
    Nat.ofDigitChars 10 (digits.map Nat.digitChar) 0 = Nat.ofDigits 10 digits.reverse := by
  induction digits with
  | nil => rfl
  | cons d digits ih =>
      obtain ⟨hd, hdigits⟩ := List.forall_mem_cons.1 h
      rw [List.map_cons, Nat.ofDigitChars_cons_digitChar_of_lt_ten hd,
        Nat.ofDigitChars_eq_ofDigitChars_zero, ih hdigits, List.length_map, Nat.mul_zero, Nat.zero_add,
        Nat.ofDigits_reverse_cons, Nat.add_comm]

lemma spells_iff :
    Spells cs n ↔ cs ≠ [] ∧ (∀ c ∈ cs, c.isDigit = true) ∧ Nat.ofDigitChars 10 cs 0 = n := by
  constructor
  · rintro ⟨digits, hne, hdigits, rfl, rfl⟩
    refine ⟨by simpa using hne, ?_, ofDigitChars_map_digitChar hdigits⟩
    simpa using hdigits
  · rintro ⟨hne, hcs, rfl⟩
    obtain ⟨digits, hdigits, rfl⟩ := exists_map_digitChar_eq hcs
    exact ⟨digits, by simpa using hne, hdigits, rfl, (ofDigitChars_map_digitChar hdigits).symm⟩

lemma denotes_iff_spells : Denotes text n ↔ Spells (Text.trim text.toList) n :=
  denotes_iff_trim.trans spells_iff.symm

/-! ## Zeros in front -/

/-- More digits never make a number smaller. -/
lemma le_ofDigitChars (cs : List Char) (n : Nat) : n ≤ Nat.ofDigitChars 10 cs n := by
  rw [Nat.ofDigitChars_eq_ofDigitChars_zero]
  exact (Nat.le_mul_of_pos_left n (Nat.pow_pos (by decide))).trans (Nat.le_add_right _ _)

/-- Digits that are read behind a number are written behind it, unless this number is zero. -/
lemma toDigits_append (hn : 0 < n) (hcs : ∀ c ∈ cs, c.isDigit = true) :
    Nat.toDigits 10 n ++ cs = Nat.toDigits 10 (Nat.ofDigitChars 10 cs n) := by
  induction cs generalizing n with
  | nil => rw [List.append_nil, Nat.ofDigitChars_nil]
  | cons c cs ih =>
      obtain ⟨hc, hrest⟩ := List.forall_mem_cons.1 hcs
      obtain ⟨d, hd, rfl⟩ := exists_digitChar_eq hc
      have hlonger : Nat.toDigits 10 n ++ [d.digitChar] = Nat.toDigits 10 (10 * n + d) := by
        rw [← Nat.toDigits_append_toDigits (by decide) hn hd, Nat.toDigits_of_lt_base hd]
      rw [Nat.ofDigitChars_cons_digitChar_of_lt_ten hd, ← ih (by omega) hrest, ← hlonger,
        List.append_assoc, List.singleton_append]

lemma exists_zeros_of_digits (hne : cs ≠ []) (hcs : ∀ c ∈ cs, c.isDigit = true) :
    ∃ zeros, cs = List.replicate zeros '0' ++ Nat.toDigits 10 (Nat.ofDigitChars 10 cs 0) := by
  induction cs with
  | nil => exact absurd rfl hne
  | cons c cs ih =>
      obtain ⟨hc, hrest⟩ := List.forall_mem_cons.1 hcs
      obtain ⟨d, hd, rfl⟩ := exists_digitChar_eq hc
      by_cases hzero : d = 0
      · subst hzero
        cases cs with
        | nil => exact ⟨0, rfl⟩
        | cons b cs =>
            obtain ⟨zeros, hzeros⟩ := ih (List.cons_ne_nil b cs) hrest
            exact ⟨zeros + 1, congrArg ('0' :: ·) hzeros⟩
      · refine ⟨0, ?_⟩
        rw [Nat.ofDigitChars_cons_digitChar_of_lt_ten hd, Nat.mul_zero, Nat.zero_add,
          ← toDigits_append (Nat.pos_of_ne_zero hzero) hrest, Nat.toDigits_of_lt_base hd]
        rfl

/-- **All spellings of a number** are the digits that it is written with and zeros in front of them. -/
theorem spells_iff_exists_zeros :
    Spells cs n ↔ ∃ zeros, cs = List.replicate zeros '0' ++ (toString n).toList := by
  rw [spells_iff, toList_toString_nat]
  constructor
  · rintro ⟨hne, hcs, rfl⟩
    exact exists_zeros_of_digits hne hcs
  · rintro ⟨zeros, rfl⟩
    refine ⟨by simp, fun c hc => ?_, ?_⟩
    · rcases List.mem_append.1 hc with hc | hc
      · rw [List.eq_of_mem_replicate hc]
        rfl
      · exact Nat.isDigit_of_mem_toDigits (by decide) (by decide) hc
    · rw [Nat.ofDigitChars_append, Nat.ofDigitChars_replicate_zero, Nat.mul_zero,
        Nat.ofDigitChars_ten_toDigits]

/-- The text is the number as it is written, with zeros in front of it and white space around both. -/
def IsPadded (text : String) (n : Nat) : Prop :=
  ∃ before zeros behind,
    text.toList = before ++ (List.replicate zeros '0' ++ (toString n).toList ++ behind) ∧
      (∀ c ∈ before, Text.isBlank c = true) ∧ ∀ c ∈ behind, Text.isBlank c = true

lemma denotes_iff_isPadded : Denotes text n ↔ IsPadded text n := by
  simp only [Denotes, ← spells_iff, spells_iff_exists_zeros, IsPadded]
  constructor
  · rintro ⟨before, _, behind, htext, hbefore, hbehind, zeros, rfl⟩
    exact ⟨before, zeros, behind, htext, hbefore, hbehind⟩
  · rintro ⟨before, zeros, behind, htext, hbefore, hbehind⟩
    exact ⟨before, _, behind, htext, hbefore, hbehind, zeros, rfl⟩

/-! ## Numbers in words -/

/-- The result of an operation on words, if a word can hold it. -/
def checked (overflow : Bool) (result : UInt64) : Option UInt64 :=
  if overflow then none else some result

/-- The product of two words, if a word can hold it. -/
def mul? (a b : UInt64) : Option UInt64 := checked (a.toBitVec.umulOverflow b.toBitVec) (a * b)

/-- The sum of two words, if a word can hold it. -/
def add? (a b : UInt64) : Option UInt64 := checked (a.toBitVec.uaddOverflow b.toBitVec) (a + b)

/-- The number with one more digit behind it, if a word can hold it. -/
def append? (word : UInt64) (c : Char) : Option UInt64 :=
  (mul? word 10).bind fun tens => add? tens (.ofNat (c.toNat - '0'.toNat))

/-- Reads a count into a word, and stops at the digit with which the word can no longer hold the value. -/
def parseWord (text : String) : Except NumeralError UInt64 :=
  let digits := Text.trim text.toList
  if digits.isEmpty || digits.any (fun c => !c.isDigit) then .error (.malformed text)
  else
    match digits.foldlM append? 0 with
    | some value => .ok value
    | none => .error .tooLarge

variable {a b u word : UInt64}

/-- An operation that is right up to multiples of the limit, and detects when the result reaches the limit,
gives the result if there is a word for it. -/
lemma checked_eq_some_iff {overflow : Bool} {result : UInt64} (hresult : result.toNat = n % 2 ^ 64)
    (hoverflow : overflow = true ↔ 2 ^ 64 ≤ n) : checked overflow result = some u ↔ u.toNat = n := by
  rw [checked]
  split_ifs with h
  · have hlarge := hoverflow.1 h
    have hlt := u.toNat_lt
    exact iff_of_false (by rintro ⟨⟩) (by omega)
  · have hlt : n < 2 ^ 64 := Nat.lt_of_not_le (mt hoverflow.2 h)
    rw [Option.some_inj, ← UInt64.toNat_inj, hresult, Nat.mod_eq_of_lt hlt, eq_comm]

lemma mul?_eq_some_iff : mul? a b = some u ↔ u.toNat = a.toNat * b.toNat :=
  checked_eq_some_iff (UInt64.toNat_mul a b) decide_eq_true_iff

lemma add?_eq_some_iff : add? a b = some u ↔ u.toNat = a.toNat + b.toNat :=
  checked_eq_some_iff (UInt64.toNat_add a b) decide_eq_true_iff

/-- A number below the limit is in some word. -/
lemma exists_toNat_eq (h : n < 2 ^ 64) : ∃ u : UInt64, u.toNat = n :=
  ⟨.ofNat n, UInt64.toNat_ofNat_of_lt h⟩

/-- **One more digit**: a word holds the number with it exactly, or no word can. -/
theorem append?_eq_some_iff :
    append? word c = some u ↔ u.toNat = 10 * word.toNat + (c.toNat - '0'.toNat) := by
  have hdigit : (UInt64.ofNat (c.toNat - '0'.toNat)).toNat = c.toNat - '0'.toNat := by
    have hlt : c.toNat < 2 ^ 32 := c.val.toNat_lt
    exact UInt64.toNat_ofNat_of_lt (show c.toNat - '0'.toNat < 2 ^ 64 by omega)
  have hten : (10 : UInt64).toNat = 10 := rfl
  simp only [append?, Option.bind_eq_some_iff, mul?_eq_some_iff, add?_eq_some_iff, hdigit, hten]
  constructor
  · rintro ⟨tens, htens, hu⟩
    omega
  · intro hu
    have hlt := u.toNat_lt
    obtain ⟨tens, htens⟩ : ∃ tens : UInt64, tens.toNat = word.toNat * 10 := exists_toNat_eq (by omega)
    exact ⟨tens, htens, by omega⟩

/-- **Any number of digits**: a word holds the number exactly, or no word can. -/
theorem foldlM_append?_eq_some_iff :
    cs.foldlM append? word = some u ↔ u.toNat = Nat.ofDigitChars 10 cs word.toNat := by
  induction cs generalizing word with
  | nil =>
      rw [Nat.ofDigitChars_nil, UInt64.toNat_inj, eq_comm]
      exact Option.some_inj
  | cons c cs ih =>
      simp only [List.foldlM_cons, Option.bind_eq_bind, Option.bind_eq_some_iff, append?_eq_some_iff, ih,
        Nat.ofDigitChars_cons]
      constructor
      · rintro ⟨next, hnext, hu⟩
        rwa [← hnext]
      · intro hu
        -- the value fits with the digits that follow, so it fits without them
        have hle := le_ofDigitChars cs (10 * word.toNat + (c.toNat - '0'.toNat))
        have hlt := u.toNat_lt
        obtain ⟨next, hnext⟩ := exists_toNat_eq (hle.trans_lt (hu ▸ hlt))
        exact ⟨next, hnext, by rwa [hnext]⟩

/-- Words are enough to read counts. -/
lemma map_parseWord (text : String) : (parseWord text).map UInt64.toNat = parse text := by
  have hread (u : UInt64) : (Text.trim text.toList).foldlM append? 0 = some u ↔
      u.toNat = Nat.ofDigitChars 10 (Text.trim text.toList) 0 := foldlM_append?_eq_some_iff
  rw [parseWord, parse]
  split
  · rfl
  · show _ = if Nat.ofDigitChars 10 (Text.trim text.toList) 0 < limit then _ else _
    cases hword : (Text.trim text.toList).foldlM append? 0 with
    | some u =>
        have hlt : u.toNat < limit := u.toNat_lt
        rw [← (hread u).1 hword, if_pos hlt]
        rfl
    | none =>
        have hlarge : ¬ Nat.ofDigitChars 10 (Text.trim text.toList) 0 < limit := by
          intro hlt
          obtain ⟨u, hu⟩ := exists_toNat_eq hlt
          cases hword.symm.trans ((hread u).2 hu)
        rw [if_neg hlarge]
        rfl

/-! ## Counts and indices -/

lemma parse_eq_tooLarge_iff : parse text = .error .tooLarge ↔ ∃ n, Denotes text n ∧ limit ≤ n := by
  rw [parse_eq_error_iff]
  constructor
  · rintro ⟨⟩
    next n h hn => exact ⟨n, h, hn⟩
  · rintro ⟨n, h, hn⟩
    exact .tooLarge h hn

lemma parse_eq_malformed_iff : parse text = .error (.malformed text) ↔ ∀ n, ¬ Denotes text n := by
  rw [parse_eq_error_iff]
  constructor
  · rintro ⟨h⟩
    exact h
  · exact .malformed

lemma parseIndex_eq_zero_iff : parseIndex text = .error (.zero text) ↔ Denotes text 0 := by
  rw [parseIndex_eq_error_iff]
  constructor
  · rintro (h | h)
    · cases h
    · exact h
  · exact .zero

lemma parseIndex_eq_parse_iff : parseIndex text = parse text ↔ ¬ Denotes text 0 := by
  constructor
  · intro heq hzero
    have hcount : parse text = .ok 0 := parse_eq_ok_iff.2 ⟨hzero, by decide⟩
    rw [parseIndex_eq_zero_iff.2 hzero, hcount] at heq
    cases heq
  · intro hzero
    rw [parseIndex]
    split
    · next hcount => exact absurd (parse_eq_ok_iff.1 hcount).1 hzero
    · rfl

/-- **Which texts are counts and indices** is told by what is left of a text without the white space around
it.  A count has to spell a number below the limit; every other text is refused because the number is too
large or because there is none, and then the answer repeats the text with its white space.  An index is the
same, except that zero is refused.  So the counts are the numbers below the limit as they are written, with
any zeros in front of them and any white space around, and they can be read in words of 64 bits. -/
theorem parse_iff_spells (text : String) :
    ∃ inner, (∀ other, Text.IsTrimmed text.toList other ↔ other = inner) ∧
      (∀ n, parse text = .ok n ↔ Spells inner n ∧ n < 2 ^ 64) ∧
      (parse text = .error .tooLarge ↔ ∃ n, Spells inner n ∧ 2 ^ 64 ≤ n) ∧
      (parse text = .error (.malformed text) ↔ ∀ n, ¬ Spells inner n) ∧
      (parseIndex text = .error (.zero text) ↔ Spells inner 0) ∧
      (parseIndex text = parse text ↔ ¬ Spells inner 0) ∧
      (∀ n, parse text = .ok n ↔ n < 2 ^ 64 ∧ IsPadded text n) ∧
      (parseWord text).map UInt64.toNat = parse text := by
  refine ⟨Text.trim text.toList, fun other => Text.isTrimmed_iff, ?_⟩
  simp only [← denotes_iff_spells, ← denotes_iff_isPadded]
  exact ⟨fun n => parse_eq_ok_iff, parse_eq_tooLarge_iff, parse_eq_malformed_iff, parseIndex_eq_zero_iff,
    parseIndex_eq_parse_iff, fun n => parse_eq_ok_iff.trans and_comm, map_parseWord text⟩

/-- The last number below the limit and the first that is not, behind zeros and between white space. -/
example : parse "\u3000 0018446744073709551615\t" = .ok (2 ^ 64 - 1) ∧
    parse "\u3000 0018446744073709551616\t" = .error .tooLarge := by
  decide +kernel

end FiniteAutomata.Numeral
