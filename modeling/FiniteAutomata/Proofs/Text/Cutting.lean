import FiniteAutomata.Text.Blank
import FiniteAutomata.Text.Lines
import Mathlib.Data.List.Basic
import Mathlib.Data.List.TakeWhile
import Mathlib.Tactic.Common

/-!
# Cutting texts

A text that has been put together from lines is cut into these lines again, unless one of them holds
the character that ends a line; what is lost is a carriage return at the end of a line.  Words are
found again if there is nothing but white space between them, and fields if there is one comma.  In the
other direction, what a text is cut into never holds what it has been cut at.

* `not_of_mem_splitOnP`, `not_mem_of_mem_cutLines` — what a piece does not hold.
* **`cutLines_flatMap_concat`** — lines one behind the other are cut into the same lines.
* `HasFields`, `map_splitOn_eq_iff` — fields with commas between them, and cutting a text into them.
* **`words_eq_cons_iff`** — the first word of a text, and what stands before it and behind it.
* `IsTrimmed`, **`isTrimmed_iff`** — a text without the white space around it.
-/

namespace FiniteAutomata.Text

variable {α : Type}

/-! ## Pieces -/

/-- Nothing that a sequence is split at is in one of its pieces. -/
lemma not_of_mem_splitOnP {p : α → Bool} {l piece : List α} (h : piece ∈ l.splitOnP p) :
    ∀ a ∈ piece, p a = false := by
  -- the first piece goes up to the first place to split at, and the rest is split in the same way
  induction hlength : l.length using Nat.strongRecOn generalizing l with
  | _ n ih =>
      cases hfind : l.find? p with
      | none =>
          have hnone : ∀ a ∈ l, p a = false := by simpa using hfind
          rw [List.splitOnP_eq_singleton hnone] at h
          rwa [List.mem_singleton.1 h]
      | some sep =>
          obtain ⟨hsep, before, behind, rfl, hbefore⟩ := List.find?_eq_some_iff_append.1 hfind
          have hfirst : ∀ a ∈ before, p a = false := by simpa using hbefore
          rw [List.splitOnP_append_cons_of_forall_mem hfirst sep hsep] at h
          rcases List.mem_cons.1 h with rfl | h
          · exact hfirst
          · refine ih behind.length ?_ h rfl
            rw [← hlength, List.length_append, List.length_cons]
            omega

/-- A sequence begins with what satisfies the predicate, up to the first place that does not. -/
lemma exists_eq_append_of_pred (p : α → Bool) (l : List α) :
    ∃ front rest, l = front ++ rest ∧ (∀ a ∈ front, p a = true) ∧ ∀ a ∈ rest.head?, p a = false := by
  refine ⟨l.takeWhile p, l.dropWhile p, List.takeWhile_append_dropWhile.symm,
    fun a => List.mem_takeWhile_imp, fun a ha => ?_⟩
  have hstop := List.head?_dropWhile_not p l
  rwa [Option.mem_def.1 ha] at hstop

section Lines

variable [BEq α] {feed ret a b : α} {l line : List α} {lines : List (List α)}

lemma not_mem_of_mem_splitOn [ReflBEq α] (h : line ∈ l.splitOn a) : a ∉ line := by
  intro ha
  have hne := not_of_mem_splitOnP h a ha
  rw [beq_self_eq_true] at hne
  cases hne

/-- There is one piece more than there are places to cut at. -/
lemma length_splitOn (a : α) (l : List α) : (l.splitOn a).length = l.count a + 1 := by
  induction l with
  | nil => rfl
  | cons b l ih =>
      rw [List.splitOn_cons_eq_if_modifyHead, List.count_cons]
      split_ifs <;> simp [ih]

/-! ## Lines -/

lemma mem_of_mem_dropTrailing (h : b ∈ dropTrailing a l) : b ∈ l := by
  rw [dropTrailing] at h
  split_ifs at h
  · exact List.dropLast_subset l h
  · exact h

/-- No line holds what ends a line. -/
lemma not_mem_of_mem_cutLines [ReflBEq α] (h : line ∈ cutLines feed ret l) : feed ∉ line := by
  rw [cutLines] at h
  rcases List.mem_append.1 h with h | h
  · obtain ⟨piece, hpiece, rfl⟩ := List.mem_map.1 h
    exact fun hfeed => not_mem_of_mem_splitOn (List.dropLast_subset _ hpiece)
      (mem_of_mem_dropTrailing hfeed)
  · split_ifs at h
    · cases h
    · obtain rfl := List.mem_singleton.1 h
      rw [List.getLast?_eq_some_getLast (List.splitOn_ne_nil feed l), Option.getD_some]
      exact not_mem_of_mem_splitOn (List.getLast_mem _)

variable [LawfulBEq α]

lemma dropTrailing_concat : dropTrailing a (l ++ [a]) = l := by
  rw [dropTrailing, List.getLast?_concat, beq_self_eq_true, if_pos rfl, List.dropLast_concat]

lemma dropTrailing_of_getLast?_ne (h : l.getLast? ≠ some a) : dropTrailing a l = l := by
  rw [dropTrailing, if_neg]
  simpa using h

lemma dropTrailing_cases (a : α) (l : List α) :
    dropTrailing a l = l ∨ l = dropTrailing a l ++ [a] := by
  by_cases h : l.getLast? = some a
  · obtain ⟨l, rfl⟩ := List.getLast?_eq_some_iff.1 h
    exact .inr (by rw [dropTrailing_concat])
  · exact .inl (dropTrailing_of_getLast?_ne h)

lemma splitOn_flatMap_concat (h : ∀ line ∈ lines, feed ∉ line) :
    (lines.flatMap (· ++ [feed])).splitOn feed = lines ++ [[]] := by
  induction lines with
  | nil => exact List.splitOn_nil feed
  | cons line lines ih =>
      have hline : feed ∉ line := h line (List.mem_cons_self ..)
      rw [List.flatMap_cons, List.append_assoc, List.singleton_append,
        List.splitOn_append_cons_self_of_not_mem hline,
        ih fun line hmem => h line (List.mem_cons_of_mem _ hmem), List.cons_append]

/-- **Lines one behind the other are cut into the same lines**, each without one `ret` at its end. -/
theorem cutLines_flatMap_concat (h : ∀ line ∈ lines, feed ∉ line) :
    cutLines feed ret (lines.flatMap (· ++ [feed])) = lines.map (dropTrailing ret) := by
  rw [cutLines, splitOn_flatMap_concat h, List.dropLast_concat, List.getLast?_concat,
    Option.getD_some, List.isEmpty_nil, if_pos rfl, List.append_nil]

end Lines

/-! ## Fields -/

section Fields

variable {text : String} {fields : List String} {pieces : List (List Char)}

lemma map_ofList_eq_iff : pieces.map String.ofList = fields ↔ pieces = fields.map String.toList := by
  constructor <;> rintro rfl <;> simp

/-- The text is made of these fields, with commas between them and nowhere else. -/
def HasFields (text : String) (fields : List String) : Prop :=
  text = ",".intercalate fields ∧ ∀ field ∈ fields, ',' ∉ field.toList

/-- A text that is cut at its commas falls into its fields. -/
lemma map_splitOn_eq_iff (hne : fields ≠ []) :
    (text.toList.splitOn ',').map String.ofList = fields ↔ HasFields text fields := by
  have htext : (",".intercalate fields).toList = [','].intercalate (fields.map String.toList) :=
    String.toList_intercalate
  rw [map_ofList_eq_iff]
  constructor
  · intro hpieces
    refine ⟨String.toList_inj.1 ?_, fun field hfield => not_mem_of_mem_splitOn (l := text.toList) ?_⟩
    · rw [htext, ← hpieces, List.intercalate_splitOn]
    · rw [hpieces]
      exact List.mem_map_of_mem hfield
  · rintro ⟨rfl, hfields⟩
    rw [htext]
    exact List.splitOn_intercalate ',' (List.forall_mem_map.2 hfields) (by simpa using hne)

end Fields

/-! ## Words -/

section Words

variable {cs word inner before behind : List Char} {ws : List (List Char)} {c : Char}

/-- A text that is not empty and holds no white space is a word. -/
lemma words_of_not_blank (hne : word ≠ []) (h : ∀ c ∈ word, isBlank c = false) :
    words word = [word] := by
  rw [words, List.splitOnP_eq_singleton h]
  simp [hne]

/-- White space separates words. -/
lemma words_append_blank (hc : isBlank c = true) (left right : List Char) :
    words (left ++ c :: right) = words left ++ words right := by
  rw [words, List.splitOnP_append_cons left right hc, List.filter_append]
  rfl

lemma words_cons_blank (hc : isBlank c = true) (cs : List Char) : words (c :: cs) = words cs :=
  words_append_blank hc [] cs

lemma words_append_of_blank (h : ∀ c ∈ before, isBlank c = true) (cs : List Char) :
    words (before ++ cs) = words cs := by
  induction before with
  | nil => rfl
  | cons c before ih =>
      obtain ⟨hc, hbefore⟩ := List.forall_mem_cons.1 h
      rw [List.cons_append, words_cons_blank hc, ih hbefore]

lemma words_of_blank (h : ∀ c ∈ cs, isBlank c = true) : words cs = [] := by
  rw [← List.append_nil cs, words_append_of_blank h]
  rfl

/-- A word goes up to the next white space. -/
lemma words_append_of_not_blank (hne : word ≠ []) (h : ∀ c ∈ word, isBlank c = false)
    (hbehind : ∀ c ∈ behind.head?, isBlank c = true) :
    words (word ++ behind) = word :: words behind := by
  cases behind with
  | nil =>
      rw [List.append_nil, words_of_not_blank hne h]
      rfl
  | cons c behind =>
      have hc := hbehind c rfl
      rw [words_append_blank hc, words_of_not_blank hne h, words_cons_blank hc]
      rfl

/-- A text begins with white space, and behind it there is nothing or a word. -/
lemma blank_or_exists_word (cs : List Char) :
    (∀ c ∈ cs, isBlank c = true) ∨ ∃ before word behind, cs = before ++ (word ++ behind) ∧
      (∀ c ∈ before, isBlank c = true) ∧ word ≠ [] ∧ (∀ c ∈ word, isBlank c = false) ∧
        ∀ c ∈ behind.head?, isBlank c = true := by
  obtain ⟨before, rest, rfl, hbefore, hstop⟩ := exists_eq_append_of_pred isBlank cs
  cases rest with
  | nil =>
      rw [List.append_nil]
      exact .inl hbefore
  | cons c rest =>
      have hc : isBlank c = false := hstop c rfl
      obtain ⟨word, behind, rfl, hword, hbehind⟩ :=
        exists_eq_append_of_pred (fun c => !isBlank c) rest
      refine .inr ⟨before, c :: word, behind, rfl, hbefore, List.cons_ne_nil _ _, ?_, ?_⟩
      · exact List.forall_mem_cons.2 ⟨hc, by simpa using hword⟩
      · simpa using hbehind

lemma words_eq_nil_iff : words cs = [] ↔ ∀ c ∈ cs, isBlank c = true := by
  refine ⟨fun h => (blank_or_exists_word cs).resolve_right ?_, words_of_blank⟩
  rintro ⟨before, word, behind, rfl, hbefore, hne, hword, hbehind⟩
  rw [words_append_of_blank hbefore, words_append_of_not_blank hne hword hbehind] at h
  cases h

/-- **The first word of a text**: there is only white space before it, and white space or nothing comes
next to it. -/
theorem words_eq_cons_iff :
    words cs = word :: ws ↔ word ≠ [] ∧ (∀ c ∈ word, isBlank c = false) ∧
      ∃ before behind, cs = before ++ (word ++ behind) ∧ (∀ c ∈ before, isBlank c = true) ∧
        (∀ c ∈ behind.head?, isBlank c = true) ∧ words behind = ws := by
  constructor
  · intro h
    rcases blank_or_exists_word cs with hblank |
      ⟨before, first, behind, rfl, hbefore, hne, hfirst, hbehind⟩
    · rw [words_of_blank hblank] at h
      cases h
    · rw [words_append_of_blank hbefore, words_append_of_not_blank hne hfirst hbehind] at h
      obtain ⟨rfl, rfl⟩ := List.cons.inj h
      exact ⟨hne, hfirst, before, behind, rfl, hbefore, hbehind, rfl⟩
  · rintro ⟨hne, hword, before, behind, rfl, hbefore, hbehind, rfl⟩
    rw [words_append_of_blank hbefore, words_append_of_not_blank hne hword hbehind]

lemma words_eq_singleton_iff :
    words cs = [word] ↔ word ≠ [] ∧ (∀ c ∈ word, isBlank c = false) ∧
      ∃ before behind, cs = before ++ (word ++ behind) ∧ (∀ c ∈ before, isBlank c = true) ∧
        ∀ c ∈ behind, isBlank c = true := by
  simp only [words_eq_cons_iff, words_eq_nil_iff]
  refine and_congr_right fun _ => and_congr_right fun _ => exists₂_congr fun before behind => ?_
  refine and_congr_right fun _ => and_congr_right fun _ => and_iff_right_of_imp fun h c hc => ?_
  exact h c (List.mem_of_head? hc)

/-! ## Trimmed texts -/

/-- What is taken away at the ends is white space. -/
lemma exists_eq_append_trim (cs : List Char) :
    ∃ before behind, cs = before ++ (trim cs ++ behind) ∧ (∀ c ∈ before, isBlank c = true) ∧
      ∀ c ∈ behind, isBlank c = true := by
  refine ⟨cs.takeWhile isBlank, ((cs.dropWhile isBlank).reverse.takeWhile isBlank).reverse, ?_,
    fun c => List.mem_takeWhile_imp, fun c hc => List.mem_takeWhile_imp (List.mem_reverse.1 hc)⟩
  rw [trim, ← List.reverse_append, List.takeWhile_append_dropWhile, List.reverse_reverse,
    List.takeWhile_append_dropWhile]

/-- What is left of a text if the white space at both of its ends is taken away, and nothing else. -/
structure IsTrimmed (cs inner : List Char) : Prop where
  cut : ∃ before behind, cs = before ++ (inner ++ behind) ∧ (∀ c ∈ before, isBlank c = true) ∧
    ∀ c ∈ behind, isBlank c = true
  first : ∀ c ∈ inner.head?, isBlank c = false
  last : ∀ c ∈ inner.getLast?, isBlank c = false

lemma head?_dropWhile (cs : List Char) : ∀ c ∈ (cs.dropWhile isBlank).head?, isBlank c = false := by
  intro c hc
  have hstop := List.head?_dropWhile_not isBlank cs
  rwa [Option.mem_def.1 hc] at hstop

lemma dropWhile_eq_self (h : ∀ c ∈ cs.head?, isBlank c = false) : cs.dropWhile isBlank = cs := by
  cases cs with
  | nil => rfl
  | cons c cs => exact List.dropWhile_cons_of_neg (by simp [h c rfl])

lemma isTrimmed_trim (cs : List Char) : IsTrimmed cs (trim cs) where
  cut := exists_eq_append_trim cs
  first c hc := by
    have hprefix : trim cs <+: cs.dropWhile isBlank := by
      rw [trim, ← List.reverse_suffix, List.reverse_reverse]
      exact List.dropWhile_suffix isBlank
    obtain ⟨behind, hbehind⟩ := hprefix
    refine head?_dropWhile cs c ?_
    rw [← hbehind, List.head?_append, Option.mem_def.1 hc]
    rfl
  last := by
    rw [trim, List.getLast?_reverse]
    exact head?_dropWhile _

lemma IsTrimmed.trim_eq (h : IsTrimmed cs inner) : trim cs = inner := by
  obtain ⟨before, behind, rfl, hbefore, hbehind⟩ := h.cut
  have hback : ∀ c ∈ behind.reverse, isBlank c = true := fun c hc => hbehind c (List.mem_reverse.1 hc)
  rw [trim, List.dropWhile_append_of_pos hbefore]
  cases inner with
  | nil =>
      rw [List.nil_append, List.dropWhile_eq_nil_iff.2 hbehind]
      rfl
  | cons c inner =>
      have hfirst : ((c :: inner) ++ behind).dropWhile isBlank = (c :: inner) ++ behind :=
        dropWhile_eq_self h.first
      have hlast : (c :: inner).reverse.dropWhile isBlank = (c :: inner).reverse :=
        dropWhile_eq_self (by simpa only [List.head?_reverse] using h.last)
      rw [hfirst, List.reverse_append, List.dropWhile_append_of_pos hback, hlast, List.reverse_reverse]

/-- **There is one way to trim a text.** -/
theorem isTrimmed_iff : IsTrimmed cs inner ↔ inner = trim cs := by
  constructor
  · exact fun h => h.trim_eq.symm
  · rintro rfl
    exact isTrimmed_trim cs

/-- A text with a single word is trimmed to this word. -/
lemma trim_of_words (h : words cs = [word]) : trim cs = word := by
  obtain ⟨-, hword, hcut⟩ := words_eq_singleton_iff.1 h
  exact IsTrimmed.trim_eq ⟨hcut, fun c hc => hword c (List.mem_of_head? hc),
    fun c hc => hword c (List.mem_of_getLast? hc)⟩

end Words

end FiniteAutomata.Text
