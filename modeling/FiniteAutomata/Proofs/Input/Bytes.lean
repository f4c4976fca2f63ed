import FiniteAutomata.Proofs.Input.Lines
import Mathlib.Data.Set.List

/-!
# Texts as bytes

A file holds the bytes of a text.  The bytes below 128 stand for the characters with these numbers and
are in no other character, so the bytes are cut into lines where the characters would be, and the lines
are decoded to what they were.  For the same reason a file holds a text if each of its lines does, and one
that does not breaks off at some line.

* `IsCodeOf` — an encoding in which one member can be found among the others.
* `cutLines_flatMap`, `exists_flatMap_of_cutLines` — cutting an encoded sequence, and the way back.
* **`ofBytes_toUTF8`** — the lines of a file that holds a text are the lines of the text.
* **`ofBytes_of_not_isValidUTF8`** — a file that holds no text breaks off at its first such line.
-/

namespace FiniteAutomata

/-! ## Cutting encoded sequences -/

namespace Text

variable {α β : Type} {encode : α → List β} {l : List α}

/-- In the encoding `b` stands for `a`, and for nothing else. -/
structure IsCodeOf (encode : α → List β) (b : β) (a : α) : Prop where
  code : encode a = [b]
  not_mem : ∀ c, c ≠ a → b ∉ encode c

lemma flatMap_intercalate (sep : List α) (pieces : List (List α)) :
    (sep.intercalate pieces).flatMap encode =
      (sep.flatMap encode).intercalate (pieces.map (·.flatMap encode)) := by
  induction pieces with
  | nil => rfl
  | cons piece pieces ih =>
      cases pieces with
      | nil => simp
      | cons next pieces =>
          rw [List.intercalate_cons_cons, List.flatMap_append, List.flatMap_append, ih]
          simp

namespace IsCodeOf

variable {a : α} {b : β}

lemma mem_flatMap_iff (h : IsCodeOf encode b a) : b ∈ l.flatMap encode ↔ a ∈ l := by
  rw [List.mem_flatMap]
  constructor
  · rintro ⟨c, hc, hb⟩
    by_cases hca : c = a
    · exact hca ▸ hc
    · exact absurd hb (h.not_mem c hca)
  · exact fun ha => ⟨a, ha, by simp [h.code]⟩

variable [BEq α] [LawfulBEq α] [BEq β] [LawfulBEq β]

/-- The pieces of an encoded sequence are the encoded pieces. -/
lemma splitOn_flatMap (h : IsCodeOf encode b a) :
    (l.flatMap encode).splitOn b = (l.splitOn a).map (·.flatMap encode) := by
  have hpieces : ∀ piece ∈ (l.splitOn a).map (·.flatMap encode), b ∉ piece := by
    intro piece hpiece
    obtain ⟨piece, hmem, rfl⟩ := List.mem_map.1 hpiece
    rw [h.mem_flatMap_iff]
    exact not_mem_of_mem_splitOn hmem
  have hne : (l.splitOn a).map (·.flatMap encode) ≠ [] := by
    simp [List.splitOn_ne_nil]
  have hcode : [a].flatMap encode = [b] := by
    rw [List.flatMap_singleton, h.code]
  have hl : [a].intercalate (l.splitOn a) = l := List.intercalate_splitOn a
  conv_lhs => rw [← hl, flatMap_intercalate, hcode]
  exact List.splitOn_intercalate b hpieces hne

lemma dropTrailing_flatMap (h : IsCodeOf encode b a) (hencode : ∀ c, encode c ≠ []) :
    dropTrailing b (l.flatMap encode) = (dropTrailing a l).flatMap encode := by
  rcases List.eq_nil_or_concat' l with rfl | ⟨l, c, rfl⟩
  · rfl
  · rw [List.flatMap_append, List.flatMap_singleton]
    by_cases hca : c = a
    · rw [hca, h.code, dropTrailing_concat, dropTrailing_concat]
    · have hlast : (l ++ [c]).getLast? ≠ some a := by simpa using hca
      have hcode : (l.flatMap encode ++ encode c).getLast? ≠ some b := by
        rw [List.getLast?_append, List.getLast?_eq_some_getLast (hencode c), Option.some_or]
        intro hb
        exact h.not_mem c hca (Option.some.inj hb ▸ List.getLast_mem _)
      rw [dropTrailing_of_getLast?_ne hlast, dropTrailing_of_getLast?_ne hcode,
        List.flatMap_append, List.flatMap_singleton]

end IsCodeOf

/-- **An encoded sequence is cut into the encoded lines.** -/
theorem cutLines_flatMap [BEq α] [LawfulBEq α] [BEq β] [LawfulBEq β] {feed ret : α}
    {feed' ret' : β} (hfeed : IsCodeOf encode feed' feed) (hret : IsCodeOf encode ret' ret)
    (hencode : ∀ c, encode c ≠ []) :
    cutLines feed' ret' (l.flatMap encode) = (cutLines feed ret l).map (·.flatMap encode) := by
  have hpieces := hfeed.splitOn_flatMap (l := l)
  have hlast : ((l.splitOn feed).map (·.flatMap encode)).getLast?.getD [] =
      ((l.splitOn feed).getLast?.getD []).flatMap encode := by
    rw [List.getLast?_map]
    cases (l.splitOn feed).getLast? <;> rfl
  have hempty : ∀ rest : List α, (rest.flatMap encode).isEmpty = rest.isEmpty := by
    intro rest
    cases rest with
    | nil => rfl
    | cons c rest => simp [hencode]
  simp only [cutLines, hpieces, hlast, hempty, ← List.map_dropLast, List.map_map, List.map_append]
  congr 1
  · exact List.map_congr_left fun piece _ => hret.dropTrailing_flatMap hencode
  · split_ifs <;> rfl

/-- A sequence is encoded if its lines are, and the ends of lines can be encoded. -/
lemma exists_flatMap_of_cutLines [BEq β] [LawfulBEq β] {feed ret : α} {feed' ret' : β} {bs : List β}
    (hfeed : encode feed = [feed']) (hret : encode ret = [ret'])
    (h : ∀ line ∈ cutLines feed' ret' bs, ∃ l : List α, l.flatMap encode = line) :
    ∃ l : List α, l.flatMap encode = bs := by
  have hpieces : ∀ piece ∈ bs.splitOn feed', ∃ l : List α, l.flatMap encode = piece := by
    intro piece hpiece
    have hne := List.splitOn_ne_nil feed' bs
    rw [← List.dropLast_append_getLast hne, List.mem_append, List.mem_singleton] at hpiece
    rcases hpiece with hpiece | rfl
    · -- the line lacks at most the `ret'` at its end
      obtain ⟨l, hl⟩ := h _ (List.mem_append_left _ (List.mem_map_of_mem hpiece))
      rcases dropTrailing_cases ret' piece with hsame | hless
      · exact ⟨l, hl.trans hsame⟩
      · refine ⟨l ++ [ret], ?_⟩
        rw [List.flatMap_append, List.flatMap_singleton, hl, hret, ← hless]
    · cases hlast : (bs.splitOn feed').getLast hne with
      | nil => exact ⟨[], rfl⟩
      | cons b rest =>
          refine h _ (List.mem_append_right _ ?_)
          rw [List.getLast?_eq_some_getLast hne, hlast]
          exact List.mem_singleton_self _
  have hrange : bs.splitOn feed' ∈ Set.range (List.map (List.flatMap encode)) := by
    rw [Set.range_list_map]
    exact hpieces
  obtain ⟨ls, hls⟩ := hrange
  refine ⟨[feed].intercalate ls, ?_⟩
  rw [flatMap_intercalate, hls, List.flatMap_singleton, hfeed]
  exact List.intercalate_splitOn feed'

end Text

/-! ## Lines of files -/

/-- The list of bytes is collected from the front, the last one first. -/
lemma toList_loop (bytes : ByteArray) (i : Nat) (collected : List UInt8) :
    ByteArray.toList.loop bytes i collected = collected.reverse ++ bytes.data.toList.drop i := by
  fun_induction ByteArray.toList.loop bytes i collected with
  | case1 i collected hi ih =>
      have hlt : i < bytes.data.toList.length := hi
      have hget : bytes.get! i = bytes.data.toList[i] := getElem!_pos bytes.data i hi
      rw [ih, List.reverse_cons, List.append_assoc, List.singleton_append, hget,
        List.getElem_cons_drop]
  | case2 i collected hi =>
      have hle : bytes.data.toList.length ≤ i := Nat.le_of_not_lt hi
      rw [List.drop_eq_nil_of_le hle, List.append_nil]

lemma toList_toByteArray (bytes : List UInt8) : bytes.toByteArray.toList = bytes := by
  rw [ByteArray.toList, toList_loop, List.toList_data_toByteArray]
  rfl

lemma toByteArray_toList (bytes : ByteArray) : bytes.toList.toByteArray = bytes := by
  rw [ByteArray.toList, toList_loop]
  apply ByteArray.ext
  simp

lemma toList_toUTF8 (text : String) :
    text.toUTF8.toList = text.toList.flatMap String.utf8EncodeChar := by
  have htext : text.toUTF8 = (text.toList.flatMap String.utf8EncodeChar).toByteArray := by
    conv_lhs => rw [← String.ofList_toList (s := text)]
    exact String.toByteArray_ofList
  rw [htext, toList_toByteArray]

/-- A byte below 128 is in no character but the one with its number, and is all of it. -/
lemma utf8EncodeChar_of_mem {b : UInt8} {c : Char} (hb : b.toNat < 128)
    (h : b ∈ String.utf8EncodeChar c) : c.toNat = b.toNat := by
  rw [String.utf8EncodeChar] at h
  have hc : c.toNat = c.val.toNat := rfl
  split_ifs at h with hone htwo hthree
  · rw [List.mem_singleton.1 h, UInt8.toNat_ofNat']
    omega
  · simp only [List.mem_cons, List.not_mem_nil, or_false] at h
    rcases h with rfl | rfl <;> rw [UInt8.toNat_ofNat'] at hb <;> omega
  · simp only [List.mem_cons, List.not_mem_nil, or_false] at h
    rcases h with rfl | rfl | rfl <;> rw [UInt8.toNat_ofNat'] at hb <;> omega
  · simp only [List.mem_cons, List.not_mem_nil, or_false] at h
    rcases h with rfl | rfl | rfl | rfl <;> rw [UInt8.toNat_ofNat'] at hb <;> omega

/-- A byte below 128 stands for the character with its number and is in no other character. -/
lemma isCodeOf_utf8EncodeChar {b : UInt8} {a : Char} (hb : b.toNat < 128) (ha : a.toNat = b.toNat) :
    Text.IsCodeOf String.utf8EncodeChar b a where
  code := by
    have hsmall : a.val.toNat ≤ 127 := by
      have hval : a.toNat = a.val.toNat := rfl
      omega
    rw [String.utf8EncodeChar, if_pos hsmall]
    have hbyte : UInt8.ofNat a.val.toNat = b := by
      rw [show a.val.toNat = b.toNat from ha, UInt8.ofNat_toNat]
    rw [hbyte]
  not_mem c hc hmem := hc (Char.toNat_inj.1 ((utf8EncodeChar_of_mem hb hmem).trans ha.symm))

lemma fromUTF8?_encode (cs : List Char) :
    String.fromUTF8? (cs.flatMap String.utf8EncodeChar).toByteArray = some (String.ofList cs) := by
  have hbytes : (cs.flatMap String.utf8EncodeChar).toByteArray = (String.ofList cs).toByteArray :=
    String.toByteArray_ofList.symm
  rw [hbytes, String.fromUTF8?, dif_pos (String.ofList cs).isValidUTF8]
  rfl

namespace Input

lemma ofDecoded_map_some (lines : List String) : ofDecoded (lines.map some) = ⟨lines, none⟩ := by
  induction lines with
  | nil => rfl
  | cons line lines ih => rw [List.map_cons, ofDecoded, ih]

/-- **The lines of a file that holds a text are the lines of the text.** -/
theorem ofBytes_toUTF8 (text : String) : ofBytes text.toUTF8 = ofString text := by
  have hfeed : Text.IsCodeOf String.utf8EncodeChar 0x0a '\n' :=
    isCodeOf_utf8EncodeChar (by decide) rfl
  have hret : Text.IsCodeOf String.utf8EncodeChar 0x0d '\r' :=
    isCodeOf_utf8EncodeChar (by decide) rfl
  have hencode : ∀ c, String.utf8EncodeChar c ≠ [] := fun _ => String.utf8EncodeChar_ne_nil
  have hlines : (Text.cutLines 0x0a 0x0d text.toUTF8.toList).map
      (fun line => String.fromUTF8? line.toByteArray) =
        ((Text.cutLines '\n' '\r' text.toList).map String.ofList).map some := by
    rw [toList_toUTF8, Text.cutLines_flatMap hfeed hret hencode, List.map_map,
      List.map_map]
    exact List.map_congr_left fun line _ => fromUTF8?_encode line
  rw [ofBytes, hlines, ofDecoded_map_some]
  rfl

/-! ## Files that hold no text -/

lemma isValidUTF8_iff {bytes : ByteArray} :
    bytes.IsValidUTF8 ↔ ∃ cs : List Char, cs.flatMap String.utf8EncodeChar = bytes.toList := by
  constructor
  · rintro ⟨cs, rfl⟩
    exact ⟨cs, (toList_toByteArray _).symm⟩
  · rintro ⟨cs, hcs⟩
    refine ⟨cs, ?_⟩
    rw [List.utf8Encode, hcs, toByteArray_toList]

lemma fromUTF8?_eq_none_iff {bytes : ByteArray} :
    String.fromUTF8? bytes = none ↔ ¬ bytes.IsValidUTF8 := by
  rw [String.fromUTF8?, dite_eq_right_iff]
  exact ⟨fun h hvalid => Option.some_ne_none _ (h hvalid), fun h hvalid => absurd hvalid h⟩

lemma isValidUTF8_of_fromUTF8? {bytes : ByteArray} {text : String}
    (h : String.fromUTF8? bytes = some text) : bytes.IsValidUTF8 := by
  by_contra hvalid
  rw [fromUTF8?_eq_none_iff.2 hvalid] at h
  cases h

/-- Either every line is decoded, or those are that stand before the first one that cannot be. -/
lemma ofDecoded_cases (decoded : List (Option String)) :
    (ofDecoded decoded).error = none ∧ decoded = (ofDecoded decoded).lines.map some ∨
      (ofDecoded decoded).error = some .undecodable ∧
        ∃ behind, decoded = (ofDecoded decoded).lines.map some ++ none :: behind := by
  induction decoded with
  | nil => exact .inl ⟨rfl, rfl⟩
  | cons line decoded ih =>
      cases line with
      | none => exact .inr ⟨rfl, decoded, rfl⟩
      | some line =>
          rcases ih with ⟨herror, hlines⟩ | ⟨herror, behind, hlines⟩
          · exact .inl ⟨herror, congrArg (some line :: ·) hlines⟩
          · exact .inr ⟨herror, behind, congrArg (some line :: ·) hlines⟩

/-- **A file that holds no text breaks off** at its first line that cannot be decoded. -/
theorem ofBytes_of_not_isValidUTF8 {bytes : ByteArray} (h : ¬ bytes.IsValidUTF8) :
    (ofBytes bytes).error = some .undecodable ∧ ∃ before bad behind,
      Text.cutLines 0x0a 0x0d bytes.toList = before ++ bad :: behind ∧
        before.map (fun line => String.fromUTF8? line.toByteArray) =
          (ofBytes bytes).lines.map some ∧ ¬ bad.toByteArray.IsValidUTF8 := by
  rcases ofDecoded_cases ((Text.cutLines 0x0a 0x0d bytes.toList).map fun line =>
    String.fromUTF8? line.toByteArray) with ⟨-, hlines⟩ | ⟨herror, behind, hlines⟩
  · refine absurd (isValidUTF8_iff.2 ?_) h
    have hfeed : String.utf8EncodeChar '\n' = [0x0a] := rfl
    have hret : String.utf8EncodeChar '\r' = [0x0d] := rfl
    refine Text.exists_flatMap_of_cutLines hfeed hret fun line hline => ?_
    have hdecoded := List.mem_map_of_mem (f := fun line => String.fromUTF8? line.toByteArray) hline
    rw [hlines] at hdecoded
    obtain ⟨text, -, htext⟩ := List.mem_map.1 hdecoded
    obtain ⟨cs, hcs⟩ := isValidUTF8_iff.1 (isValidUTF8_of_fromUTF8? htext.symm)
    exact ⟨cs, hcs.trans (toList_toByteArray line)⟩
  · refine ⟨herror, ?_⟩
    obtain ⟨before, rest, hcut, hbefore, hrest⟩ := List.map_eq_append_iff.1 hlines
    obtain ⟨bad, behind, rfl, hbad, -⟩ := List.map_eq_cons_iff.1 hrest
    exact ⟨before, bad, behind, hcut, hbefore, fromUTF8?_eq_none_iff.1 hbad⟩

end Input

end FiniteAutomata
