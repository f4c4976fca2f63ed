import FiniteAutomata.Proofs.Regex.Reading
import FiniteAutomata.Text.Parentheses

/-!
# Outer parentheses of an expression

The texts of expressions are balanced, hence a text that begins with the text of one expression and
goes on is never inside one pair of parentheses: the first parenthesis is closed before the end.  So
outer parentheses are taken off exactly where the expression is a group, and expressions that have the
same text without them differ only in groups.

* `stripParentheses_render` — the text without outer parentheses is the text of the expression inside.
* `plain_eq_of_stripParentheses_eq` — equal texts, parentheses apart, come from equal expressions,
  groups apart.
-/

namespace FiniteAutomata

namespace Text

variable {c : Char}

lemma closesAll_cons_other (depth : Nat) (cs : List Char) (hopen : c ≠ '(') (hclose : c ≠ ')') :
    closesAll depth (c :: cs) = closesAll depth cs := by
  rw [closesAll.eq_def]
  simp only [if_neg hopen, if_neg hclose]

lemma closesAll_append_eq_false {depth : Nat} {cs : List Char} (more : List Char)
    (h : closesAll (depth + 1) cs = true) : closesAll depth (cs ++ more) = false := by
  induction cs generalizing depth with
  | nil => simp [closesAll] at h
  | cons c cs ih =>
      by_cases hopen : c = '('
      · subst hopen
        have h : closesAll (depth + 1 + 1) cs = true := h
        exact ih h
      · by_cases hclose : c = ')'
        · subst hclose
          cases depth with
          | zero => rfl
          | succ depth =>
              have h : closesAll (depth + 1) cs = true := h
              exact ih h
        · rw [closesAll_cons_other _ _ hopen hclose] at h
          rw [List.cons_append, closesAll_cons_other _ _ hopen hclose]
          exact ih h

end Text

namespace Regex

open Text

variable {e : Regex}

lemma closesAll_chars_append (he : e.WellFormed) (depth : Nat) (more : List Char) :
    closesAll depth (e.chars ++ more) = closesAll depth more := by
  induction e generalizing depth more with
  | symbol c =>
      have hc := he.1
      simp only [isReserved, Bool.or_eq_false_iff, beq_eq_false_iff_ne] at hc
      exact closesAll_cons_other depth more hc.1.1.1 hc.1.1.2
  | epsilon => rfl
  | concat left right ihl ihr =>
      rw [chars, List.append_assoc, ihl he.1.1, ihr he.2.1]
  | union left right ihl ihr =>
      rw [chars, List.append_assoc, ihl he.1, List.cons_append,
        closesAll_cons_other _ _ (by decide) (by decide), ihr he.2.1]
  | iterate operand ih =>
      rw [chars, List.append_assoc, ih he.1]
      rfl
  | group inner ih =>
      change closesAll (depth + 1) (inner.chars ++ [')'] ++ more) = _
      rw [List.append_assoc, ih he]
      rfl

lemma isBalanced_chars (he : e.WellFormed) : isBalanced e.chars = true := by
  rw [isBalanced, ← List.append_nil e.chars, closesAll_chars_append he]
  rfl

lemma insideParentheses?_chars_append (he : e.WellFormed) {more : List Char} (hmore : more ≠ []) :
    insideParentheses? (e.chars ++ more) = none := by
  obtain ⟨c, cs, hcs, -⟩ := exists_chars_eq_cons he
  rw [hcs, List.cons_append, insideParentheses?.eq_def]
  split
  · next rest hrest =>
    obtain ⟨rfl, rfl⟩ := List.cons.inj hrest
    -- the first parenthesis is closed inside the expression, hence not by the last character
    have hclosed : closesAll 1 cs = true := by
      have hbalanced := isBalanced_chars he
      rwa [hcs] at hbalanced
    rw [if_neg]
    rintro ⟨-, hbalanced⟩
    rw [List.dropLast_append_of_ne_nil hmore, isBalanced,
      closesAll_append_eq_false more.dropLast hclosed] at hbalanced
    cases hbalanced
  · rfl

/-- The expression without one group around it, if it has one. -/
def unwrapped : Regex → Regex
  | group inner => inner
  | e => e

lemma unwrapped_wellFormed (he : e.WellFormed) : e.unwrapped.WellFormed := by
  cases e <;> exact he

lemma plain_unwrapped (e : Regex) : e.unwrapped.plain = e.plain := by
  cases e <;> rfl

lemma insideParentheses?_group (he : e.WellFormed) :
    insideParentheses? (group e).chars = some e.chars := by
  change (if (e.chars ++ [')']).getLast? = some ')' ∧
    isBalanced (e.chars ++ [')']).dropLast = true then some (e.chars ++ [')']).dropLast else none) = _
  rw [List.dropLast_concat, if_pos ⟨List.getLast?_concat, isBalanced_chars he⟩]

lemma stripParentheses_eq_self (h : insideParentheses? e.chars = none) :
    stripParentheses e.render = e.render := by
  rw [stripParentheses, toList_render, h]

/-- **Outer parentheses are taken off exactly where the expression is a group.** -/
theorem stripParentheses_render (he : e.WellFormed) :
    stripParentheses e.render = e.unwrapped.render := by
  cases e with
  | symbol c =>
      refine stripParentheses_eq_self ?_
      have hopen : c ≠ '(' := by
        rintro rfl
        exact absurd he.1 (by decide)
      rw [chars, insideParentheses?.eq_def]
      split
      · next h => exact absurd (List.cons.inj h).1 hopen
      · rfl
  | epsilon => exact stripParentheses_eq_self rfl
  | concat left right =>
      refine stripParentheses_eq_self (insideParentheses?_chars_append he.1.1 ?_)
      obtain ⟨c, cs, hcs, -⟩ := exists_chars_eq_cons he.2.1
      rw [hcs]
      exact List.cons_ne_nil c cs
  | union left right =>
      exact stripParentheses_eq_self (insideParentheses?_chars_append he.1 (List.cons_ne_nil _ _))
  | iterate operand =>
      exact stripParentheses_eq_self (insideParentheses?_chars_append he.1 (List.cons_ne_nil _ _))
  | group inner =>
      have hinner : inner.WellFormed := he
      rw [stripParentheses, toList_render, insideParentheses?_group hinner, ← toList_render]
      exact String.ofList_toList

/-- **Equal texts, outer parentheses apart, come from expressions that differ only in groups.** -/
theorem plain_eq_of_stripParentheses_eq {d : Regex} (hd : d.WellFormed) (he : e.WellFormed)
    (h : stripParentheses d.render = stripParentheses e.render) : d.plain = e.plain := by
  rw [stripParentheses_render hd, stripParentheses_render he] at h
  rw [← plain_unwrapped d, eq_of_render_eq (unwrapped_wellFormed hd) (unwrapped_wellFormed he) h,
    plain_unwrapped]

end Regex

end FiniteAutomata
