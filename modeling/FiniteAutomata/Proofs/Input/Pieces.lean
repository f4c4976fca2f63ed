import FiniteAutomata.Proofs.Input.Bytes
import Mathlib.Data.List.Forall2

/-!
# The pieces of a text

What the lines of a text are can be told without a reader.  The text is cut behind each of its line feeds, and
a line is what is left of a piece without the line feed at its end and one carriage return before it.  There
is one way to do so, and the lines are those that are read from a file which holds the text.

* `CutBehind` — the pieces of a sequence that is cut behind each line feed.
* **`existsUnique_cutBehind`** — there is one way to cut it.
* `WithoutEnd`, `HasLines` — a piece without the end of the line, and the lines of all pieces.
* **`exists_lines`** — the lines of a text are those of a file that holds it.
* `givenLines` — the lines that a reader gives which may pass over some.
-/

namespace FiniteAutomata

open List (Forall₂)

/-! ## Cutting behind -/

section Cutting

variable {α : Type} {feed ret : α} {l piece rest body : List α} {pieces others : List (List α)}

/-- The pieces of a sequence that is cut behind each `feed`.  There is no piece behind the last `feed` if
nothing stands there. -/
inductive CutBehind (feed : α) : List α → List (List α) → Prop
  | nil : CutBehind feed [] []
  | unended {piece : List α} (hne : piece ≠ []) (h : feed ∉ piece) : CutBehind feed piece [piece]
  | ended {body rest : List α} {pieces : List (List α)} (h : feed ∉ body)
      (hrest : CutBehind feed rest pieces) :
      CutBehind feed (body ++ feed :: rest) ((body ++ [feed]) :: pieces)

/-- A sequence without `feed`, or one with a first `feed`. -/
lemma feed_cases (feed : α) (l : List α) :
    feed ∉ l ∨ ∃ body rest, l = body ++ feed :: rest ∧ feed ∉ body := by
  by_cases h : feed ∈ l
  · exact .inr (List.eq_append_cons_of_mem h)
  · exact .inl h

/-- What stands before the first `feed` cannot go on where another such beginning stops. -/
lemma append_cons_inj {body' rest' : List α} (h : feed ∉ body) (h' : feed ∉ body')
    (heq : body ++ feed :: rest = body' ++ feed :: rest') : body = body' ∧ rest = rest' := by
  rcases List.append_eq_append_iff.1 heq with ⟨more, rfl, hmore⟩ | ⟨more, rfl, hmore⟩
  · cases more with
    | nil => simpa using hmore
    | cons a more =>
        obtain ⟨rfl, -⟩ := List.cons.inj hmore
        simp at h'
  · cases more with
    | nil => simpa using hmore.symm
    | cons a more =>
        obtain ⟨rfl, -⟩ := List.cons.inj hmore
        simp at h

lemma exists_cutBehind (feed : α) (l : List α) : ∃ pieces, CutBehind feed l pieces := by
  -- behind the first `feed` there is less to cut
  induction hlength : l.length using Nat.strongRecOn generalizing l with
  | _ n ih =>
      rcases feed_cases feed l with h | ⟨body, rest, rfl, hbody⟩
      · cases l with
        | nil => exact ⟨[], .nil⟩
        | cons a l => exact ⟨[a :: l], .unended (List.cons_ne_nil a l) h⟩
      · have hless : rest.length < n := by
          rw [← hlength, List.length_append, List.length_cons]
          omega
        obtain ⟨pieces, hpieces⟩ := ih rest.length hless rest rfl
        exact ⟨(body ++ [feed]) :: pieces, .ended hbody hpieces⟩

lemma CutBehind.unique (h : CutBehind feed l pieces) (h' : CutBehind feed l others) : others = pieces := by
  induction h generalizing others with
  | nil =>
      generalize hl : ([] : List α) = l at h'
      cases h' with
      | nil => rfl
      | unended hne => exact absurd hl.symm hne
      | ended => simp at hl
  | unended hne hfeed =>
      cases h' with
      | nil => exact absurd rfl hne
      | unended => rfl
      | ended => simp at hfeed
  | @ended body rest pieces hbody hrest ih =>
      generalize hl : body ++ feed :: rest = l at h'
      cases h' with
      | nil => simp at hl
      | unended hne hfeed => simp [← hl] at hfeed
      | @ended body' rest' others hbody' hrest' =>
          obtain ⟨rfl, rfl⟩ := append_cons_inj hbody hbody' hl
          rw [ih hrest']

/-- **There is one way to cut a sequence behind each `feed`.** -/
theorem existsUnique_cutBehind (feed : α) (l : List α) : ∃! pieces, CutBehind feed l pieces := by
  obtain ⟨pieces, h⟩ := exists_cutBehind feed l
  exact ⟨pieces, h, fun others h' => h.unique h'⟩

/-! ## Lines without their ends -/

/-- What is left of a piece without the end of the line: a `feed`, and one `ret` right before it. A `ret`
that no `feed` follows is kept. -/
inductive WithoutEnd (feed ret : α) : List α → List α → Prop
  | unended {piece : List α} (h : piece.getLast? ≠ some feed) : WithoutEnd feed ret piece piece
  | feed {line : List α} (h : line.getLast? ≠ some ret) : WithoutEnd feed ret (line ++ [feed]) line
  | returnFeed {line : List α} : WithoutEnd feed ret (line ++ [ret] ++ [feed]) line

lemma rightUnique_withoutEnd (feed ret : α) : Relator.RightUnique (WithoutEnd feed ret) := by
  intro piece line other h h'
  cases h with
  | unended hlast =>
      cases h' with
      | unended => rfl
      | feed | returnFeed => simp at hlast
  | feed hret =>
      generalize hpiece : line ++ [feed] = piece at h'
      cases h' with
      | unended hlast => simp [← hpiece] at hlast
      | feed => exact (List.append_inj' hpiece rfl).1
      | returnFeed =>
          obtain rfl := (List.append_inj' hpiece rfl).1
          simp at hret
  | returnFeed =>
      generalize hpiece : line ++ [ret] ++ [feed] = piece at h'
      cases h' with
      | unended hlast => simp [← hpiece] at hlast
      | feed hret =>
          obtain rfl := (List.append_inj' hpiece rfl).1
          simp at hret
      | returnFeed => exact (List.append_inj' (List.append_inj' hpiece rfl).1 rfl).1

variable [BEq α] [LawfulBEq α]

lemma withoutEnd_dropTrailing (body : List α) :
    WithoutEnd feed ret (body ++ [feed]) (Text.dropTrailing ret body) := by
  by_cases h : body.getLast? = some ret
  · obtain ⟨line, rfl⟩ := List.getLast?_eq_some_iff.1 h
    rw [Text.dropTrailing_concat]
    exact .returnFeed
  · rw [Text.dropTrailing_of_getLast?_ne h]
    exact .feed h

lemma cutLines_of_not_mem (hne : piece ≠ []) (h : feed ∉ piece) :
    Text.cutLines feed ret piece = [piece] := by
  have hsplit : piece.splitOn feed = [piece] := by
    refine List.splitOnP_eq_singleton fun a ha => ?_
    rw [beq_eq_false_iff_ne]
    rintro rfl
    exact h ha
  simp [Text.cutLines, hsplit, hne]

lemma cutLines_append_cons (h : feed ∉ body) :
    Text.cutLines feed ret (body ++ feed :: rest) =
      Text.dropTrailing ret body :: Text.cutLines feed ret rest := by
  obtain ⟨next, more, hrest⟩ := List.exists_cons_of_ne_nil (List.splitOn_ne_nil feed rest)
  have hsplit : (body ++ feed :: rest).splitOn feed = body :: next :: more := by
    rw [List.splitOn_append_cons_self_of_not_mem h, hrest]
  simp only [Text.cutLines, hsplit, hrest]
  rfl

/-- The lines are the pieces without their ends. -/
lemma CutBehind.forall₂_cutLines (h : CutBehind feed l pieces) :
    Forall₂ (WithoutEnd feed ret) pieces (Text.cutLines feed ret l) := by
  induction h with
  | nil => exact .nil
  | @unended piece hne hfeed =>
      rw [cutLines_of_not_mem hne hfeed]
      exact .cons (.unended fun hlast => hfeed (List.mem_of_getLast? hlast)) .nil
  | @ended body rest pieces hbody hrest ih =>
      rw [cutLines_append_cons hbody]
      exact .cons (withoutEnd_dropTrailing body) ih

end Cutting

/-! ## The lines of a text -/

/-- The lines of pieces. -/
def HasLines (pieces : List (List Char)) (lines : List String) : Prop :=
  Forall₂ (fun piece line => WithoutEnd '\n' '\r' piece line.toList) pieces lines

variable {text : String} {pieces : List (List Char)} {lines others : List String}

lemma HasLines.unique (h : HasLines pieces lines) (h' : HasLines pieces others) : others = lines := by
  have hunique : Relator.RightUnique fun (piece : List Char) (line : String) =>
      WithoutEnd '\n' '\r' piece line.toList :=
    fun piece line other hline hother =>
      String.toList_inj.1 (rightUnique_withoutEnd '\n' '\r' hline hother)
  exact hunique.forall₂ h' h

/-- The pieces of a text have the lines that are read from a file which holds the text. -/
lemma CutBehind.hasLines (h : CutBehind '\n' text.toList pieces) :
    HasLines pieces (Input.ofBytes text.toUTF8).lines := by
  rw [Input.ofBytes_toUTF8, HasLines, Input.ofString, List.forall₂_map_right_iff]
  simp only [String.toList_ofList]
  exact h.forall₂_cutLines

/-- What is read from a file that holds the text. -/
lemma CutBehind.ofBytes_eq (h : CutBehind '\n' text.toList pieces) (hlines : HasLines pieces lines) :
    Input.ofBytes text.toUTF8 = ⟨lines, none⟩ := by
  have herror : (Input.ofBytes text.toUTF8).error = none := by
    rw [Input.ofBytes_toUTF8]
    rfl
  rw [← hlines.unique h.hasLines, ← herror]

/-- **A text is cut in one way, and its pieces have one list of lines**, which is what is read from a file
that holds the text. -/
theorem exists_lines (text : String) :
    ∃ pieces : List (List Char), (∀ others, CutBehind '\n' text.toList others ↔ others = pieces) ∧
      ∃ lines : List String, (∀ others, HasLines pieces others ↔ others = lines) ∧
        Input.ofBytes text.toUTF8 = ⟨lines, none⟩ := by
  obtain ⟨pieces, hpieces, hunique⟩ := existsUnique_cutBehind '\n' text.toList
  have hlines := hpieces.hasLines
  refine ⟨pieces, fun others => ⟨hunique others, ?_⟩, _, fun others => ⟨hlines.unique, ?_⟩,
    hpieces.ofBytes_eq hlines⟩
  · rintro rfl
    exact hpieces
  · rintro rfl
    exact hlines

/-- The lines that a reader gives: all of them, or those with more than white space in them. -/
def givenLines (skipsBlank : Bool) (lines : List Line) : List Line :=
  if skipsBlank then lines.filter fun line => line.text.toList.any fun c => !Text.isBlank c else lines

lemma any_not_isBlank (text : String) :
    (text.toList.any fun c => !Text.isBlank c) = !Text.isBlankText text :=
  List.not_all_eq_any_not.symm

lemma filled_eq_givenLines (input : Input) : input.filled = givenLines true input.numbered := by
  simp only [givenLines, if_true, any_not_isBlank]
  rfl

end FiniteAutomata
