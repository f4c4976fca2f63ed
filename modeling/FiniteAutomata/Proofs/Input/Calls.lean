import FiniteAutomata.Input.Cursor
import FiniteAutomata.Proofs.Input.Pieces

/-!
# Asking for one line after the other

A text is cut behind each of its line feeds, and the pieces are its lines, without their ends.  A cursor
gives them one at a time, and it goes on being asked: what matters is the answer to each call of a sequence
of calls that need not stop where the lines do.  It is the answer that the list of the lines gives at this
place, also for a reader that has a single line in its hands, looks for the next one in a loop and must
remember that it has come to the end.

* `Cursor.left`, **`Cursor.takes_next`** — the lines that will be given, and what a call takes from them.
* `LineReader` — a reader with one line and a mark that it has come to the end.
* **`LineReader.Follows.advance`** — the reader and the cursor stay in step.
* **`answers_of_text`** — what any call is answered.
-/

namespace FiniteAutomata

/-! ## What is left to be given -/

variable {skipsBlank : Bool} {number : Nat} {line : Line} {lines : List Line}

lemma givenLines_cons (skipsBlank : Bool) (line : Line) (lines : List Line) :
    givenLines skipsBlank (line :: lines) =
      if skipsBlank && Text.isBlankText line.text then givenLines skipsBlank lines
      else line :: givenLines skipsBlank lines := by
  cases skipsBlank with
  | false => rfl
  | true =>
      simp only [givenLines, if_true, Bool.true_and, List.filter_cons, any_not_isBlank]
      cases Text.isBlankText line.text <;> rfl

namespace Cursor

/-- The lines that will be given. -/
def left (c : Cursor) : List Line := givenLines c.skipsBlank (Input.numberFrom (c.number + 1) c.rest.lines)

/-- The number of all lines, read or not. -/
def total (c : Cursor) : Nat := c.number + c.rest.lines.length

/-- Nothing has gone wrong or will go wrong. -/
structure Whole (c : Cursor) : Prop where
  error : c.error = none
  rest : c.rest.error = none

lemma Whole.takeError_eq {c : Cursor} (h : c.Whole) : c.takeError = (none, c) := by
  obtain ⟨skipsBlank, number, rest, error⟩ := c
  obtain rfl : error = none := h.error
  rfl

/-- Either a line is given and some lines are read, or there is none to give and all lines are read. -/
lemma advance_cases (skipsBlank : Bool) (number : Nat) (lines : List String) :
    (∃ line rest read, advance skipsBlank lines = (some (line, rest), read) ∧
        number + lines.length = number + read + rest.length ∧
        givenLines skipsBlank (Input.numberFrom (number + 1) lines) =
          ⟨number + read, line⟩ :: givenLines skipsBlank (Input.numberFrom (number + read + 1) rest)) ∨
      advance skipsBlank lines = (none, lines.length) ∧
        givenLines skipsBlank (Input.numberFrom (number + 1) lines) = [] := by
  induction lines generalizing number with
  | nil => exact .inr ⟨rfl, by cases skipsBlank <;> rfl⟩
  | cons line lines ih =>
      rw [advance, Input.numberFrom, givenLines_cons]
      cases hskip : skipsBlank && Text.isBlankText line with
      | false => exact .inl ⟨line, lines, 1, rfl, by simp [Nat.add_assoc, Nat.add_comm 1], rfl⟩
      | true =>
          -- the line is passed over but counted
          rcases ih (number + 1) with
            ⟨next, rest, read, hadvance, hlength, hgiven⟩ | ⟨hadvance, hgiven⟩
          · refine .inl ⟨next, rest, read + 1, ?_, ?_, ?_⟩
            · simp [hadvance]
            · simp only [List.length_cons]
              omega
            · simp only [if_true, hgiven, Nat.add_right_comm, Nat.add_assoc, Nat.add_comm 1]
          · exact .inr ⟨by simp [hadvance], by simpa using hgiven⟩

/-- What a call answers and what it leaves. -/
structure Takes (c : Cursor) (answer : Option String) (c' : Cursor) : Prop where
  answer : answer = c.left.head?.map (·.text)
  left : c'.left = c.left.tail
  number : c'.number = (c.left.head?.map (·.number)).getD c.total
  total : c'.total = c.total
  whole : c'.Whole

variable {c : Cursor}

/-- **A call gives the first line that is left**, and at the end none. -/
theorem takes_next (h : c.Whole) : c.Takes c.next.1 c.next.2 := by
  rcases advance_cases c.skipsBlank c.number c.rest.lines with
    ⟨line, rest, read, hadvance, hlength, hgiven⟩ | ⟨hadvance, hgiven⟩
  · have hnext : c.next = (some line,
        { c with number := c.number + read, rest := { c.rest with lines := rest } }) := by
      rw [next, hadvance]
    have hleft : c.left = ⟨c.number + read, line⟩ ::
        givenLines c.skipsBlank (Input.numberFrom (c.number + read + 1) rest) := hgiven
    rw [hnext]
    refine ⟨?_, ?_, ?_, hlength.symm, h.error, h.rest⟩
    · rw [hleft]
      rfl
    · rw [hleft]
      rfl
    · rw [hleft]
      rfl
  · have hnext : c.next = (none, { c with
        number := c.number + c.rest.lines.length
        rest := ⟨[], none⟩
        error := c.error.or c.rest.error }) := by
      rw [next, hadvance]
    have hleft : c.left = [] := hgiven
    rw [hnext]
    refine ⟨?_, ?_, ?_, rfl, ?_, rfl⟩
    · rw [hleft]
      rfl
    · rw [hleft]
      cases c.skipsBlank <;> simp [left, givenLines, Input.numberFrom]
    · rw [hleft]
      rfl
    · simp [h.error, h.rest]

/-- The place after `n` calls. -/
def after (c : Cursor) (n : Nat) : Cursor := (fun c => c.next.2)^[n] c

lemma after_succ (c : Cursor) (n : Nat) : c.after (n + 1) = (c.after n).next.2 :=
  Function.iterate_succ_apply' ..

/-- After any number of calls the lines are left that stand behind as many lines. -/
lemma left_after (h : c.Whole) (n : Nat) :
    (c.after n).left = c.left.drop n ∧ (c.after n).total = c.total ∧ (c.after n).Whole := by
  induction n with
  | zero => exact ⟨rfl, rfl, h⟩
  | succ n ih =>
      obtain ⟨hleft, htotal, hwhole⟩ := ih
      have htakes := takes_next hwhole
      rw [after_succ]
      refine ⟨?_, htakes.total.trans htotal, htakes.whole⟩
      rw [htakes.left, hleft, List.tail_drop]

/-- A call after `n` others gives the line that stands behind `n` lines. -/
lemma next_after (h : c.Whole) (n : Nat) :
    (c.after n).next.1 = (c.left[n]?).map (·.text) ∧
      (c.after (n + 1)).number = ((c.left[n]?).map (·.number)).getD c.total ∧
        (c.after n).takeError = (none, c.after n) := by
  obtain ⟨hleft, htotal, hwhole⟩ := left_after h n
  have htakes := takes_next hwhole
  have hhead : (c.after n).left.head? = c.left[n]? := by
    rw [hleft, List.head?_drop]
  refine ⟨?_, ?_, ?_⟩
  · rw [htakes.answer, hhead]
  · rw [after_succ, htakes.number, hhead, htotal]
  · exact hwhole.takeError_eq

end Cursor

/-! ## A reader with one line -/

/-- A reader that has one line at a time and fills it anew. -/
structure LineReader where
  /-- What has not been read yet. -/
  rest : List Char
  /-- The line that was read last. -/
  buffer : List Char
  /-- The number of lines read so far. -/
  number : Nat
  /-- Whether blank lines are passed over. -/
  skipsBlank : Bool
  /-- Whether the end has been met. -/
  finished : Bool

namespace LineReader

/-- A reader at the beginning of a text. -/
def start (skipsBlank : Bool) (text : String) : LineReader := ⟨text.toList, [], 0, skipsBlank, false⟩

/-- How much is read at once: what stands before the next line feed, and the line feed. -/
def width (r : LineReader) : Nat := r.rest.idxOf '\n' + 1

/-- Takes a line feed from the end of the line, and then a carriage return. -/
def strip (line : List Char) : List Char :=
  if line.getLast? = some '\n' then
    let line := line.dropLast
    if line.getLast? = some '\r' then line.dropLast else line
  else line

/-- Reads a line, and says whether there was one. -/
def readLine (r : LineReader) : Bool × LineReader :=
  if r.rest.isEmpty then (false, { r with buffer := [] })
  else
    (true, { r with
      rest := r.rest.drop r.width
      buffer := strip (r.rest.take r.width)
      number := r.number + 1 })

lemma length_rest_readLine {r r' : LineReader} (h : r.readLine = (true, r')) :
    r'.rest.length < r.rest.length := by
  rw [readLine] at h
  split_ifs at h with hempty
  · cases h
  · obtain ⟨-, rfl⟩ := Prod.mk.inj h
    have hpos : 0 < r.rest.length := List.length_pos_iff.2 (by simpa using hempty)
    rw [List.length_drop, width]
    omega

/-- Reads lines up to one that is to be given, or to the end. -/
def readOn (r : LineReader) : LineReader :=
  match h : r.readLine with
  | (false, r') => { r' with finished := true }
  | (true, r') =>
    have _ : r'.rest.length < r.rest.length := length_rest_readLine h
    if r'.skipsBlank && (Text.trim r'.buffer).isEmpty then r'.readOn else r'
termination_by r.rest.length

/-- Goes on to the next line; at the end there is nothing to go on to. -/
def advance (r : LineReader) : LineReader := if r.finished then r else r.readOn

/-- The line that the reader stands at. -/
def get (r : LineReader) : Option String := if r.finished then none else some (String.ofList r.buffer)

/-- The reader after `n` calls. -/
def after (r : LineReader) (n : Nat) : LineReader := advance^[n] r

/-! ## In step -/

/-- The lines of a sequence of characters. -/
def linesOf (cs : List Char) : List String := (Text.cutLines '\n' '\r' cs).map String.ofList

variable {r : LineReader} {c : Cursor}

lemma strip_of_not_mem {line : List Char} (h : '\n' ∉ line) : strip line = line := by
  rw [strip, if_neg]
  exact fun hlast => h (List.mem_of_getLast? hlast)

lemma strip_concat (body : List Char) : strip (body ++ ['\n']) = Text.dropTrailing '\r' body := by
  rw [strip, if_pos List.getLast?_concat, List.dropLast_concat, Text.dropTrailing]
  simp only [beq_iff_eq]

/-- There is nothing to read, or the first of the lines is. -/
lemma readLine_cases (r : LineReader) :
    r.rest = [] ∧ r.readLine = (false, { r with buffer := [] }) ∨
      ∃ line later, linesOf r.rest = String.ofList line :: linesOf later ∧
        r.readLine = (true, { r with rest := later, buffer := line, number := r.number + 1 }) := by
  by_cases hempty : r.rest = []
  · exact .inl ⟨hempty, by simp [readLine, hempty]⟩
  · refine .inr ⟨strip (r.rest.take r.width), r.rest.drop r.width, ?_, ?_⟩
    · rw [width, linesOf, linesOf]
      rcases feed_cases '\n' r.rest with h | ⟨body, rest, hrest, hbody⟩
      · have hlength : r.rest.length ≤ r.rest.idxOf '\n' + 1 := by
          rw [List.idxOf_eq_length h]
          omega
        rw [List.take_of_length_le hlength, List.drop_eq_nil_of_le hlength, cutLines_of_not_mem hempty h,
          strip_of_not_mem h]
        rfl
      · have hwidth : r.rest.idxOf '\n' + 1 = (body ++ ['\n']).length := by
          rw [hrest, List.idxOf_append_of_notMem hbody, List.idxOf_cons_self, List.length_append]
          rfl
        have hsplit : r.rest = (body ++ ['\n']) ++ rest := by simp [hrest]
        rw [hwidth, hsplit, List.take_left, List.drop_left, strip_concat, ← hsplit, hrest,
          cutLines_append_cons hbody]
        rfl
    · simp [readLine, hempty]

/-- Nothing is left of a trimmed text that is all white space. -/
lemma isEmpty_trim (cs : List Char) : (Text.trim cs).isEmpty = Text.isBlankText (String.ofList cs) := by
  rw [Bool.eq_iff_iff, List.isEmpty_iff, Text.isBlankText, String.toList_ofList, List.all_eq_true]
  constructor
  · intro hempty c hc
    obtain ⟨before, behind, heq, hbefore, hbehind⟩ := Text.exists_eq_append_trim cs
    rw [heq, hempty, List.nil_append, List.mem_append] at hc
    exact hc.elim (hbefore c) (hbehind c)
  · intro hblank
    rw [Text.trim, List.dropWhile_eq_nil_iff.2 hblank]
    rfl

/-- The loop of the reader stops where the cursor does. -/
lemma readOn_cases (r : LineReader) :
    r.readOn.skipsBlank = r.skipsBlank ∧ ∃ read, r.readOn.number = r.number + read ∧
      (r.readOn.finished = r.finished ∧ Cursor.advance r.skipsBlank (linesOf r.rest) =
          (some (String.ofList r.readOn.buffer, linesOf r.readOn.rest), read) ∨
        r.readOn.finished = true ∧ r.readOn.rest = [] ∧
          Cursor.advance r.skipsBlank (linesOf r.rest) = (none, read)) := by
  fun_induction readOn r with
  | case1 r r' h =>
      rcases readLine_cases r with ⟨hrest, hread⟩ | ⟨line, later, -, hread⟩
      · obtain ⟨-, rfl⟩ := Prod.mk.inj (h.symm.trans hread)
        refine ⟨rfl, 0, rfl, .inr ⟨rfl, hrest, ?_⟩⟩
        rw [hrest]
        rfl
      · cases h.symm.trans hread
  | case2 r r' h hless hskip ih =>
      rcases readLine_cases r with ⟨-, hread⟩ | ⟨line, later, hlines, hread⟩
      · cases h.symm.trans hread
      · obtain ⟨-, rfl⟩ := Prod.mk.inj (h.symm.trans hread)
        rw [isEmpty_trim] at hskip
        obtain ⟨hskips, read, hnumber, hcases⟩ := ih
        refine ⟨hskips, read + 1, by simp only [hnumber]; omega, ?_⟩
        rw [hlines, Cursor.advance, if_pos hskip]
        rcases hcases with ⟨hfinished, hadvance⟩ | ⟨hfinished, hrest, hadvance⟩
        · exact .inl ⟨hfinished, by simp only [hadvance]⟩
        · exact .inr ⟨hfinished, hrest, by simp only [hadvance]⟩
  | case3 r r' h hless hskip =>
      rcases readLine_cases r with ⟨-, hread⟩ | ⟨line, later, hlines, hread⟩
      · cases h.symm.trans hread
      · obtain ⟨-, rfl⟩ := Prod.mk.inj (h.symm.trans hread)
        rw [isEmpty_trim] at hskip
        refine ⟨rfl, 1, rfl, .inl ⟨rfl, ?_⟩⟩
        rw [hlines, Cursor.advance, if_neg hskip]

/-- A reader and a cursor at the same place. -/
structure Follows (r : LineReader) (c : Cursor) : Prop where
  skipsBlank : r.skipsBlank = c.skipsBlank
  number : r.number = c.number
  lines : c.rest.lines = linesOf r.rest
  finished : r.finished = true → r.rest = []

/-- **A reader and a cursor stay in step**, and give the same line. -/
theorem Follows.advance (h : Follows r c) :
    Follows r.advance c.next.2 ∧ r.advance.get = c.next.1 := by
  by_cases hfinished : r.finished = true
  · -- neither has anything left
    have hrest : r.rest = [] := h.finished hfinished
    have hlines : c.rest.lines = [] := h.lines.trans (by rw [hrest]; rfl)
    rw [LineReader.advance, if_pos hfinished, Cursor.next, hlines]
    refine ⟨⟨h.skipsBlank, h.number, ?_, h.finished⟩, ?_⟩
    · rw [hrest]
      rfl
    · simp [get, hfinished, Cursor.advance]
  · rw [LineReader.advance, if_neg hfinished, Cursor.next, h.lines, ← h.skipsBlank]
    obtain ⟨hskips, read, hnumber, hcases⟩ := readOn_cases r
    rcases hcases with ⟨hgoes, hadvance⟩ | ⟨hstops, hrest, hadvance⟩
    · have hunfinished : r.readOn.finished ≠ true := by rwa [hgoes]
      simp only [hadvance]
      refine ⟨⟨hskips, by rw [hnumber, h.number], rfl, fun hf => absurd hf hunfinished⟩, ?_⟩
      rw [get, if_neg hunfinished]
    · simp only [hadvance]
      refine ⟨⟨hskips, by rw [hnumber, h.number], ?_, fun _ => hrest⟩, ?_⟩
      · rw [hrest]
        rfl
      · rw [get, if_pos hstops]

lemma after_succ (r : LineReader) (n : Nat) : r.after (n + 1) = (r.after n).advance :=
  Function.iterate_succ_apply' ..

lemma Follows.after (h : Follows r c) (n : Nat) : Follows (r.after n) (c.after n) := by
  induction n with
  | zero => exact h
  | succ n ih =>
      rw [LineReader.after_succ, Cursor.after_succ]
      exact ih.advance.1

end LineReader

/-! ## Calls -/

/-- What the call behind `n` others is answered, if these are the lines that are given out of `total`. -/
structure Answers (c : Cursor) (r : LineReader) (lines : List Line) (total n : Nat) : Prop where
  answer : (c.after n).next.1 = (lines[n]?).map (·.text)
  number : (c.after (n + 1)).number = ((lines[n]?).map (·.number)).getD total
  takeError : (c.after n).takeError = (none, c.after n)
  get : (r.after (n + 1)).get = (c.after n).next.1
  count : (r.after (n + 1)).number = (c.after (n + 1)).number

lemma answers_of_follows {c : Cursor} {r : LineReader} (hc : c.Whole) (h : LineReader.Follows r c) (n : Nat) :
    Answers c r c.left c.total n := by
  obtain ⟨hanswer, hnumber, herror⟩ := Cursor.next_after hc n
  refine ⟨hanswer, hnumber, herror, ?_, (h.after (n + 1)).number⟩
  rw [LineReader.after_succ]
  exact (h.after n).advance.2

/-- A cursor that passes over nothing counts its calls, up to the number of lines. -/
lemma number_after_keeping {c : Cursor} {texts : List String} (hc : c.Whole)
    (hleft : c.left = Input.numberFrom 1 texts) (htotal : c.total = texts.length)
    (hstart : c.number = 0) (n : Nat) : (c.after n).number = min n texts.length := by
  cases n with
  | zero =>
      rw [Nat.zero_min]
      exact hstart
  | succ n =>
      rw [(Cursor.next_after hc n).2.1, hleft, htotal, Input.getElem?_numberFrom]
      by_cases hn : n < texts.length
      · rw [List.getElem?_eq_getElem hn]
        show 1 + n = _
        omega
      · rw [List.getElem?_eq_none (Nat.le_of_not_lt hn)]
        show texts.length = _
        omega

/-- **Every text is cut in one way behind its line feeds, and any call is answered by the line at its place**
among all of them or among those with more than white space. -/
theorem answers_of_text (text : String) :
    ∃ pieces : List (List Char), (∀ others, CutBehind '\n' text.toList others ↔ others = pieces) ∧
      ∃ lines : List String, (∀ others, HasLines pieces others ↔ others = lines) ∧
        (∀ skipsBlank n, Answers (Cursor.start skipsBlank (.ofBytes text.toUTF8))
          (LineReader.start skipsBlank text) (givenLines skipsBlank (Input.numberFrom 1 lines))
            pieces.length n) ∧
        ∀ n, ((Cursor.start false (.ofBytes text.toUTF8)).after n).number = min n pieces.length := by
  obtain ⟨pieces, hpieces, lines, hlines, hinput⟩ := exists_lines text
  have hlength : lines.length = pieces.length := ((hlines lines).2 rfl).length_eq.symm
  have htexts : lines = LineReader.linesOf text.toList :=
    congrArg Input.lines (hinput.symm.trans (Input.ofBytes_toUTF8 text))
  have hwhole (skipsBlank : Bool) : (Cursor.start skipsBlank ⟨lines, none⟩).Whole := ⟨rfl, rfl⟩
  refine ⟨pieces, hpieces, lines, hlines, ?_⟩
  rw [hinput, ← hlength]
  refine ⟨fun skipsBlank n => ?_, fun n => ?_⟩
  · have hfollows : LineReader.Follows (LineReader.start skipsBlank text)
        (Cursor.start skipsBlank ⟨lines, none⟩) := ⟨rfl, rfl, htexts, fun h => by cases h⟩
    have hanswers := answers_of_follows (hwhole skipsBlank) hfollows n
    rwa [Cursor.total, Cursor.start, Nat.zero_add] at hanswers
  · exact number_after_keeping (hwhole false) rfl (Nat.zero_add _) rfl n

/-- A carriage return is kept where no line feed follows it. -/
example : ((Cursor.start true (.ofString " \r\na\r\r\n\nb\r")).after 1).next.1 = some "b\r" ∧
    ((Cursor.start true (.ofString " \r\na\r\r\n\nb\r")).after 2).number = 4 := by
  decide

end FiniteAutomata
