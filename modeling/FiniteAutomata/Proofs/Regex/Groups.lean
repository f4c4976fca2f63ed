import FiniteAutomata.Proofs.Regex.Listing
import FiniteAutomata.Proofs.Regex.Parentheses

/-!
# Outer parentheses and groups

Whether a text stands in one pair of parentheses can be told by counting: between its first and its last
character no beginning closes more parentheses than it opens, and in all as many are closed as opened.  The
counter that runs along the text does nothing else, on any text.  On the text of an expression the same
question is one about the tree, and about the last of its instructions: the expression is a group.  So what
is left without the parentheses is an expression again, and it has the same language.

* `BalancedFrom`, `Balanced` — parentheses that are closed as often as opened.
* **`closesAll_iff`** — the counter tells whether they are.
* `insideParentheses?_eq_some_iff` — the texts that stand in one pair of parentheses.
* **`stripParentheses_spec`** — when there is a pair to take off, and what is left.
-/

namespace FiniteAutomata

namespace Text

/-! ## Counting -/

/-- Every beginning closes at most the `depth` parentheses that are open before it and those that it opens
itself, and in the end all of them are closed. -/
structure BalancedFrom (depth : Nat) (cs : List Char) : Prop where
  bounded : ∀ front, front <+: cs → front.count ')' ≤ depth + front.count '('
  closed : depth + cs.count '(' = cs.count ')'

/-- No beginning closes more parentheses than it opens, and in all as many are closed as opened. -/
structure Balanced (cs : List Char) : Prop where
  bounded : ∀ front, front <+: cs → front.count ')' ≤ front.count '('
  closed : cs.count '(' = cs.count ')'

variable {depth : Nat} {c : Char} {cs inner : List Char}

lemma balancedFrom_zero_iff : BalancedFrom 0 cs ↔ Balanced cs := by
  constructor
  · rintro ⟨hbounded, hclosed⟩
    simp only [Nat.zero_add] at hbounded hclosed
    exact ⟨hbounded, hclosed⟩
  · rintro ⟨hbounded, hclosed⟩
    exact ⟨by simpa using hbounded, by simpa using hclosed⟩

/-- Behind its first character a text has other parentheses open. -/
lemma balancedFrom_cons_iff : BalancedFrom depth (c :: cs) ↔
    ∃ behind, behind + [c].count ')' = depth + [c].count '(' ∧ BalancedFrom behind cs := by
  have hcount (d : Char) (l : List Char) : (c :: l).count d = [c].count d + l.count d := by
    rw [← List.count_append, List.singleton_append]
  constructor
  · rintro ⟨hbounded, hclosed⟩
    have hfirst := hbounded [c] (by simp)
    refine ⟨depth + [c].count '(' - [c].count ')', by omega, fun front hfront => ?_, ?_⟩
    · have hlonger := hbounded (c :: front) (List.cons_prefix_cons.2 ⟨rfl, hfront⟩)
      rw [hcount ')' front, hcount '(' front] at hlonger
      omega
    · rw [hcount '(' cs, hcount ')' cs] at hclosed
      omega
  · rintro ⟨behind, hbehind, hbounded, hclosed⟩
    refine ⟨fun front hfront => ?_, ?_⟩
    · rcases List.prefix_cons_iff.1 hfront with rfl | ⟨shorter, rfl, hshorter⟩
      · exact Nat.zero_le _
      · have hless := hbounded shorter hshorter
        rw [hcount ')' shorter, hcount '(' shorter]
        omega
    · rw [hcount '(' cs, hcount ')' cs]
      omega

/-- **The counter tells whether the parentheses are balanced.** -/
theorem closesAll_iff : closesAll depth cs = true ↔ BalancedFrom depth cs := by
  induction cs generalizing depth with
  | nil =>
      rw [closesAll, beq_iff_eq]
      constructor
      · rintro rfl
        exact ⟨fun front hfront => by simp [List.prefix_nil.1 hfront], rfl⟩
      · exact fun h => h.closed
  | cons c cs ih =>
      rw [balancedFrom_cons_iff]
      by_cases hopen : c = '('
      · subst hopen
        have hone : ∀ behind, behind + ['('].count ')' = depth + ['('].count '(' ↔ behind = depth + 1 :=
          fun behind => Iff.rfl
        simp only [hone, exists_eq_left]
        exact ih
      · by_cases hclose : c = ')'
        · subst hclose
          have hone : ∀ behind, behind + [')'].count ')' = depth + [')'].count '(' ↔ behind + 1 = depth :=
            fun behind => Iff.rfl
          simp only [hone]
          cases depth with
          | zero => simp [closesAll]
          | succ depth =>
              simp only [Nat.add_right_cancel_iff, exists_eq_left]
              exact ih
        · have hnone : ∀ behind, behind + [c].count ')' = depth + [c].count '(' ↔ behind = depth := by
            intro behind
            simp [hopen, hclose]
          simp only [hnone, exists_eq_left]
          rw [closesAll_cons_other depth cs hopen hclose]
          exact ih

lemma isBalanced_iff : isBalanced cs = true ↔ Balanced cs := by
  rw [isBalanced, closesAll_iff, balancedFrom_zero_iff]

/-- **The texts that stand in one pair of parentheses.** -/
theorem insideParentheses?_eq_some_iff :
    insideParentheses? cs = some inner ↔ cs = '(' :: inner ++ [')'] ∧ Balanced inner := by
  constructor
  · intro h
    rw [insideParentheses?.eq_def] at h
    split at h
    · next rest =>
      split_ifs at h with hinside
      obtain ⟨hlast, hbalanced⟩ := hinside
      obtain rfl := Option.some.inj h
      have hrest : rest.dropLast ++ [')'] = rest := List.dropLast_append_getLast? _ hlast
      exact ⟨by rw [List.cons_append, hrest], isBalanced_iff.1 hbalanced⟩
    · cases h
  · rintro ⟨rfl, hbalanced⟩
    show (if (inner ++ [')']).getLast? = some ')' ∧ isBalanced (inner ++ [')']).dropLast = true then
      some (inner ++ [')']).dropLast else none) = some inner
    rw [List.dropLast_concat, if_pos ⟨List.getLast?_concat, isBalanced_iff.2 hbalanced⟩]

variable {text : String}

lemma toList_parentheses (inner : String) :
    ("(" ++ inner ++ ")").toList = '(' :: inner.toList ++ [')'] := by
  simp [String.toList_append]

lemma stripParentheses_of_balanced {inner : String} (h : Balanced inner.toList) :
    stripParentheses ("(" ++ inner ++ ")") = inner := by
  have hinside := insideParentheses?_eq_some_iff.2 ⟨toList_parentheses inner, h⟩
  rw [stripParentheses, hinside]
  exact String.ofList_toList

/-- A text that is changed is longer than what is left of it, by two parentheses. -/
lemma stripParentheses_ne_iff :
    stripParentheses text ≠ text ↔ ∃ inner, text = "(" ++ inner ++ ")" ∧ Balanced inner.toList := by
  constructor
  · intro hne
    rw [stripParentheses] at hne
    split at hne
    · next inner hinside =>
      obtain ⟨htext, hbalanced⟩ := insideParentheses?_eq_some_iff.1 hinside
      refine ⟨String.ofList inner, String.toList_inj.1 ?_, by rwa [String.toList_ofList]⟩
      rw [htext, toList_parentheses, String.toList_ofList]
    · exact absurd rfl hne
  · rintro ⟨inner, rfl, hbalanced⟩ hsame
    rw [stripParentheses_of_balanced hbalanced] at hsame
    have hlength := congrArg (·.toList.length) hsame
    simp only [toList_parentheses, List.length_append, List.length_cons, List.length_nil] at hlength
    omega

end Text

namespace Regex

open Text

variable {e inner : Regex} {text : String} {is : List Instruction}

/-- The last instruction makes the expression. -/
lemma getLast?_instructions (e : Regex) :
    e.instructions.getLast? = some ⟨e.operationAt e.parts.length, some e.render⟩ := by
  obtain ⟨before, hparts⟩ := parts_eq_append_self e
  have hlength : e.parts.length = before.length + 1 := by
    rw [hparts, List.length_append, List.length_singleton]
  rw [instructions, instructionsFrom_eq_listFrom, hlength, hparts, listFrom_append, listFrom_singleton,
    List.getLast?_concat, Nat.zero_add]

lemma instructions_group (inner : Regex) : (group inner).instructions =
    inner.instructions ++ [⟨.identity inner.instructions.length, some (group inner).render⟩] := by
  show inner.instructions ++ [⟨.identity (0 + inner.instructions.length), _⟩] = _
  rw [Nat.zero_add]

/-- Only a group repeats another expression. -/
lemma exists_getLast?_identity_iff :
    (∃ operand t, e.instructions.getLast? = some ⟨.identity operand, t⟩) ↔
      ∃ inner, e = group inner := by
  rw [getLast?_instructions]
  cases e <;> simp [operationAt]

/-- **Parentheses are taken off the text of an expression if it is a group.** -/
theorem stripParentheses_ne_iff_group (he : e.WellFormed) :
    stripParentheses e.render ≠ e.render ↔ ∃ inner, e = group inner := by
  rw [stripParentheses_render he]
  constructor
  · intro hne
    cases e with
    | group inner => exact ⟨inner, rfl⟩
    | symbol c => exact absurd rfl hne
    | epsilon => exact absurd rfl hne
    | concat left right => exact absurd rfl hne
    | union left right => exact absurd rfl hne
    | iterate operand => exact absurd rfl hne
  · rintro ⟨inner, rfl⟩ hsame
    have hcycle : inner = group inner := eq_of_render_eq he he hsame
    cases hcycle

/-- The parentheses of an accepted text are taken off: what is left is the text of the instruction with the
number `operand`, it is accepted with the same instructions up to this one, and it has the same words. -/
structure TakenOff (text : String) (is : List Instruction) (operand : Nat) : Prop where
  positive : 0 < operand
  operand : ∃ operation, is[operand - 1]? = some ⟨operation, some (stripParentheses text)⟩
  accepted : listing (stripParentheses text) = .ok is.dropLast
  words : ∃ e inner, parse text = .ok e ∧ parse (stripParentheses text) = .ok inner ∧
    inner.language = e.language

lemma takenOff_group (h : (group inner).WellFormed) :
    TakenOff (group inner).render (group inner).instructions inner.instructions.length := by
  have hinner : inner.WellFormed := h
  have hstrip : stripParentheses (group inner).render = inner.render := stripParentheses_render h
  have hlast := getLast?_instructions inner
  have hpos : 0 < inner.instructions.length := by
    rw [List.length_pos_iff]
    intro hnil
    simp [hnil] at hlast
  refine ⟨hpos, ⟨inner.operationAt inner.parts.length, ?_⟩, ?_, group inner, inner, parse_render h,
    ?_, rfl⟩
  · rw [hstrip, instructions_group, List.getElem?_append_left (by omega), ← hlast,
      List.getLast?_eq_getElem?]
  · rw [hstrip, instructions_group, List.dropLast_concat]
    exact listing_eq_ok_iff.2 ⟨inner, parse_render hinner, rfl⟩
  · rw [hstrip, parse_render hinner]

/-- **When there is a pair of parentheses to take off**, and for an accepted text what it is in the list of
its instructions. -/
theorem stripParentheses_spec (text : String) :
    (stripParentheses text ≠ text ↔ ∃ inner, text = "(" ++ inner ++ ")" ∧ Balanced inner.toList) ∧
      (∀ inner, text = "(" ++ inner ++ ")" → Balanced inner.toList → stripParentheses text = inner) ∧
      ∀ is, listing text = .ok is →
        (stripParentheses text ≠ text ↔ ∃ operand t, is.getLast? = some ⟨.identity operand, t⟩) ∧
        ∀ operand t, is.getLast? = some ⟨.identity operand, t⟩ → TakenOff text is operand := by
  refine ⟨stripParentheses_ne_iff, ?_, fun is his => ?_⟩
  · rintro inner rfl hbalanced
    exact stripParentheses_of_balanced hbalanced
  · obtain ⟨e, hparse, rfl⟩ := listing_eq_ok_iff.1 his
    have he : e.WellFormed := wellFormed_of_parse hparse
    obtain rfl : e.render = text := render_of_parse hparse
    refine ⟨?_, fun operand t hlast => ?_⟩
    · rw [stripParentheses_ne_iff_group he, exists_getLast?_identity_iff]
    · obtain ⟨inner, rfl⟩ := exists_getLast?_identity_iff.1 ⟨operand, t, hlast⟩
      have hoperand : operand = inner.instructions.length := by
        rw [instructions_group, List.getLast?_concat] at hlast
        simp only [Option.some.injEq, Instruction.mk.injEq, Operation.identity.injEq] at hlast
        exact hlast.1.symm
      rw [hoperand]
      exact takenOff_group he

/-- A group around a group, and two groups one behind the other. -/
theorem stripParentheses_spec_sample :
    (∃ is, listing "((a)b)" = .ok is ∧ TakenOff "((a)b)" is 4) ∧
      stripParentheses "(a)(b)" = "(a)(b)" := by
  constructor
  · exact ⟨_, rfl, ((stripParentheses_spec "((a)b)").2.2 _ rfl).2 4 (some "((a)b)") rfl⟩
  · by_contra hne
    obtain ⟨operand, t, hlast⟩ := ((stripParentheses_spec "(a)(b)").2.2 _ rfl).1.1 hne
    cases hlast

end Regex

end FiniteAutomata
