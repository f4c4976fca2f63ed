import FiniteAutomata.Regex.SyntaxError
import Mathlib.Tactic.Common

/-!
# The grammar of regular expressions

Regular expressions as a parsing expression grammar.  A pattern either fails at a place or reads from
there to another place; of two alternatives the second is tried only where the first fails, and a
repetition goes on as long as it can and never gives anything back.  So there is one way at most in
which a pattern can be tried.

Along the way it is recorded where rules have failed, as far as no rule has failed further on.  A rule
takes the place of the rules that it has tried where it began, since these say less; only a single one
says more.

* `Pattern`, `Rule.body` — patterns, and the rules of the grammar.
* `Attempts`, `Attempts.record` — what is recorded.
* `Runs` — what comes of a pattern at a place.
* **`Runs.unique`** — nothing else can come of it.
* `Runs.rule_fails_at`, `Runs.rule_fails_tells` — what is recorded when a rule fails.
-/

namespace FiniteAutomata.Grammar

/-! ## The grammar -/

/-- The rules that an error can name, in the order in which it names them. -/
inductive Rule
  | endOfText
  | expression
  | union
  | concat
  | iteration
  | star
  | group
  | symbol
deriving DecidableEq

/-- The name of a rule. -/
def Rule.render : Rule → String
  | endOfText => "EOI"
  | expression => "Regex"
  | union => "Union"
  | concat => "Concat"
  | iteration => "Iteration"
  | star => "Star"
  | group => "Group"
  | symbol => "Symbol"

/-- A parsing expression. -/
inductive Pattern
  /-- This character. -/
  | char (c : Char)
  /-- Any character. -/
  | any
  /-- The beginning of the text. -/
  | first
  /-- The end of the text. -/
  | last
  /-- One pattern behind the other. -/
  | seq (p q : Pattern)
  /-- The second pattern where the first one fails. -/
  | choice (p q : Pattern)
  /-- As many repetitions as possible. -/
  | many (p : Pattern)
  /-- Nothing, where the pattern fails. -/
  | not (p : Pattern)
  /-- What a rule says. -/
  | rule (r : Rule)
deriving DecidableEq

namespace Pattern

/-- The characters that do not stand for themselves. -/
def reserved : Pattern := choice (char '(') (choice (char ')') (choice (char '|') (char '*')))

/-- An operand without its stars. -/
def primary : Pattern := choice (rule .group) (rule .symbol)

/-- A further alternative. -/
def alternative : Pattern := seq (char '|') (rule .concat)

end Pattern

open Pattern

/-- What the rules say. -/
def Rule.body : Rule → Pattern
  | endOfText => last
  | expression => seq first (seq (rule .union) (rule .endOfText))
  | union => seq (rule .concat) (many alternative)
  | concat => seq (rule .iteration) (many (rule .iteration))
  | iteration => seq primary (many (rule .star))
  | star => char '*'
  | group => seq (char '(') (seq (rule .union) (char ')'))
  | symbol => seq (not reserved) any

/-! ## Rules that have failed -/

/-- The furthest place at which a rule has failed, and the rules that failed there. -/
structure Attempts where
  offset : Nat
  rules : List Rule

namespace Attempts

/-- No rule has failed. -/
def empty : Attempts := ⟨0, []⟩

/-- How many rules are recorded for a place. -/
def countAt (a : Attempts) (offset : Nat) : Nat := if a.offset = offset then a.rules.length else 0

/-- Records that a rule has failed, which was begun at a place when `before` had been recorded.  What has
been recorded for this place since then is replaced, unless it is a single rule. -/
def record (r : Rule) (offset : Nat) (before after : Attempts) : Attempts :=
  if after.countAt offset = before.countAt offset + 1 then after
  else if after.offset < offset then ⟨offset, [r]⟩
  else if after.offset = offset then ⟨offset, after.rules.take (before.countAt offset) ++ [r]⟩
  else after

/-- The rules that have been recorded, each once, in the order of their declaration. -/
def expected (a : Attempts) : List Rule :=
  [.endOfText, .expression, .union, .concat, .iteration, .star, .group, .symbol].filter (· ∈ a.rules)

variable {a b : Attempts} {n : Nat} {rules more : List Rule} {r other : Rule}

/-- These rules have been recorded for a place, and none for a place behind it. -/
def At (a : Attempts) (offset : Nat) (rules : List Rule) : Prop :=
  a = ⟨offset, rules⟩ ∨ a.offset < offset ∧ rules = []

lemma at_empty : empty.At 0 [] := .inl rfl

lemma At.later (h : a.At n rules) : a.At (n + 1) [] := by
  rcases h with rfl | ⟨hlt, -⟩
  · exact .inr ⟨Nat.lt_succ_self n, rfl⟩
  · exact .inr ⟨Nat.lt_succ_of_lt hlt, rfl⟩

lemma At.countAt_eq (h : a.At n rules) : a.countAt n = rules.length := by
  rcases h with rfl | ⟨hlt, rfl⟩
  · simp [countAt]
  · simp [countAt, Nat.ne_of_lt hlt]

/-- A rule that has tried no other rule where it began is recorded. -/
lemma record_at (h : a.At n rules) : record r n a a = ⟨n, rules ++ [r]⟩ := by
  rw [record, if_neg (Nat.ne_of_lt (Nat.lt_succ_self _)), h.countAt_eq]
  rcases h with rfl | ⟨hlt, rfl⟩
  · simp
  · simp [hlt]

/-- A rule takes the place of several rules that it has tried where it began. -/
lemma record_several (h : a.At n rules) (hmore : more.length ≠ 1) :
    record r n a ⟨n, rules ++ more⟩ = ⟨n, rules ++ [r]⟩ := by
  have hcount : countAt ⟨n, rules ++ more⟩ n ≠ rules.length + 1 := by
    simpa [countAt] using hmore
  rw [record, h.countAt_eq, if_neg hcount]
  simp

/-- Rules that have failed further on are kept. -/
lemma record_behind (h : n < b.offset) : record r n a b = b := by
  have hcount : b.countAt n = 0 := if_neg (Nat.ne_of_gt h)
  rw [record, hcount, if_neg (Nat.succ_ne_zero _).symm, if_neg (Nat.not_lt.2 (Nat.le_of_lt h)),
    if_neg (Nat.ne_of_gt h)]

/-- Since these rules were recorded for a place, something has failed behind it, or a single rule at the
place itself. -/
def Tells (b : Attempts) (offset : Nat) (rules : List Rule) : Prop :=
  offset < b.offset ∨ ∃ other, b = ⟨offset, rules ++ [other]⟩

lemma Tells.le (h : b.Tells n rules) : n ≤ b.offset := by
  rcases h with hlt | ⟨other, rfl⟩
  · exact Nat.le_of_lt hlt
  · exact Nat.le_refl n

/-- What says more than a rule that has tried it is kept. -/
lemma record_tells (ha : a.At n rules) (hb : b.Tells n rules) : record r n a b = b := by
  rcases hb with hlt | ⟨other, rfl⟩
  · exact record_behind hlt
  · rw [record, ha.countAt_eq, if_pos]
    simp [countAt]

end Attempts

/-- An enumeration in words. -/
def enumerate : List String → String
  | [] => ""
  | [name] => name
  | [name, other] => name ++ " or " ++ other
  | names => ", ".intercalate names.dropLast ++ ", or " ++ names.getLastD ""

/-! ## Trying a pattern -/

/-- A place in a text: the number of characters before it, and those behind it. -/
structure Place where
  offset : Nat
  rest : List Char
deriving DecidableEq

/-- `Runs p x a o b`: tried at the place `x` when `a` has been recorded, the pattern reads up to the place
`o`, or fails if there is none, and then `b` has been recorded.  What is recorded while something is
tried that should fail is forgotten. -/
inductive Runs : Pattern → Place → Attempts → Option Place → Attempts → Prop
  | charReads {c cs n a} : Runs (char c) ⟨n, c :: cs⟩ a (some ⟨n + 1, cs⟩) a
  | charFails {c x a} (h : x.rest.head? ≠ some c) : Runs (char c) x a none a
  | anyReads {c cs n a} : Runs any ⟨n, c :: cs⟩ a (some ⟨n + 1, cs⟩) a
  | anyFails {n a} : Runs any ⟨n, []⟩ a none a
  | firstReads {cs a} : Runs first ⟨0, cs⟩ a (some ⟨0, cs⟩) a
  | firstFails {x a} (h : x.offset ≠ 0) : Runs first x a none a
  | lastReads {n a} : Runs last ⟨n, []⟩ a (some ⟨n, []⟩) a
  | lastFails {x a} (h : x.rest ≠ []) : Runs last x a none a
  | seq {p q x y a b o c} (left : Runs p x a (some y) b) (right : Runs q y b o c) :
      Runs (seq p q) x a o c
  | seqFails {p q x a b} (left : Runs p x a none b) : Runs (seq p q) x a none b
  | choice {p q x y a b} (left : Runs p x a (some y) b) : Runs (choice p q) x a (some y) b
  | choiceFails {p q x a b o c} (left : Runs p x a none b) (right : Runs q x b o c) :
      Runs (choice p q) x a o c
  | many {p x y a b o c} (once : Runs p x a (some y) b) (again : Runs (many p) y b o c) :
      Runs (many p) x a o c
  | manyStops {p x a b} (once : Runs p x a none b) : Runs (many p) x a (some x) b
  | not {p x a b} (inner : Runs p x a none b) : Runs (not p) x a (some x) a
  | notFails {p x y a b} (inner : Runs p x a (some y) b) : Runs (not p) x a none a
  | rule {r x y a b} (body : Runs r.body x a (some y) b) : Runs (rule r) x a (some y) b
  | ruleFails {r x a b} (body : Runs r.body x a none b) :
      Runs (rule r) x a none (.record r x.offset a b)

namespace Runs

variable {p q : Pattern} {x y : Place} {a b c : Attempts} {o o' : Option Place} {b' : Attempts}

/-- **Only one thing can come of trying a pattern at a place.** -/
theorem unique (h : Runs p x a o b) (h' : Runs p x a o' b') : o = o' ∧ b = b' := by
  induction h generalizing o' b' with
  | charReads =>
      cases h' with
      | charReads => exact ⟨rfl, rfl⟩
      | charFails hhead => simp at hhead
  | charFails hhead =>
      cases h' with
      | charReads => simp at hhead
      | charFails => exact ⟨rfl, rfl⟩
  | anyReads => cases h'; exact ⟨rfl, rfl⟩
  | anyFails => cases h'; exact ⟨rfl, rfl⟩
  | firstReads =>
      cases h' with
      | firstReads => exact ⟨rfl, rfl⟩
      | firstFails hoffset => simp at hoffset
  | firstFails hoffset =>
      cases h' with
      | firstReads => simp at hoffset
      | firstFails => exact ⟨rfl, rfl⟩
  | lastReads =>
      cases h' with
      | lastReads => exact ⟨rfl, rfl⟩
      | lastFails hrest => simp at hrest
  | lastFails hrest =>
      cases h' with
      | lastReads => simp at hrest
      | lastFails => exact ⟨rfl, rfl⟩
  | seq _ _ ihleft ihright =>
      cases h' with
      | seq left right =>
          obtain ⟨hy, rfl⟩ := ihleft left
          obtain rfl := Option.some.inj hy
          exact ihright right
      | seqFails left => cases (ihleft left).1
  | seqFails _ ih =>
      cases h' with
      | seq left _ => cases (ih left).1
      | seqFails left => exact ⟨rfl, (ih left).2⟩
  | choice _ ih =>
      cases h' with
      | choice left => exact ih left
      | choiceFails left _ => cases (ih left).1
  | choiceFails _ _ ihleft ihright =>
      cases h' with
      | choice left => cases (ihleft left).1
      | choiceFails left right =>
          obtain ⟨-, rfl⟩ := ihleft left
          exact ihright right
  | many _ _ ihonce ihagain =>
      cases h' with
      | many once again =>
          obtain ⟨hy, rfl⟩ := ihonce once
          obtain rfl := Option.some.inj hy
          exact ihagain again
      | manyStops once => cases (ihonce once).1
  | manyStops _ ih =>
      cases h' with
      | many once _ => cases (ih once).1
      | manyStops once => exact ⟨rfl, (ih once).2⟩
  | not _ ih =>
      cases h' with
      | not => exact ⟨rfl, rfl⟩
      | notFails inner => cases (ih inner).1
  | notFails _ ih =>
      cases h' with
      | not inner => cases (ih inner).1
      | notFails => exact ⟨rfl, rfl⟩
  | rule _ ih =>
      cases h' with
      | rule body => exact ih body
      | ruleFails body => cases (ih body).1
  | ruleFails _ ih =>
      cases h' with
      | rule body => cases (ih body).1
      | ruleFails body =>
          obtain ⟨-, rfl⟩ := ih body
          exact ⟨rfl, rfl⟩

section RuleFails

variable {r : Rule} {rules more : List Rule}

/-- A rule that fails where it has tried no other rule is recorded. -/
lemma rule_fails_at (ha : a.At x.offset rules) (body : Runs r.body x a none a) :
    Runs (.rule r) x a none ⟨x.offset, rules ++ [r]⟩ := by
  have h : Runs (.rule r) x a none (.record r x.offset a a) := .ruleFails body
  rwa [Attempts.record_at ha] at h

/-- A rule that fails where it has tried several rules takes their place. -/
lemma rule_fails_several (ha : a.At x.offset rules) (hmore : more.length ≠ 1)
    (body : Runs r.body x a none ⟨x.offset, rules ++ more⟩) :
    Runs (.rule r) x a none ⟨x.offset, rules ++ [r]⟩ := by
  have h : Runs (.rule r) x a none (.record r x.offset a ⟨x.offset, rules ++ more⟩) := .ruleFails body
  rwa [Attempts.record_several ha hmore] at h

/-- A rule is not recorded if what has failed in it says more. -/
lemma rule_fails_tells (ha : a.At x.offset rules) (hb : b.Tells x.offset rules)
    (body : Runs r.body x a none b) : Runs (.rule r) x a none b := by
  have h : Runs (.rule r) x a none (.record r x.offset a b) := .ruleFails body
  rwa [Attempts.record_tells ha hb] at h

/-- A rule is not recorded if something has failed further on. -/
lemma rule_fails_behind (hb : x.offset < b.offset) (body : Runs r.body x a none b) :
    Runs (.rule r) x a none b := by
  have h : Runs (.rule r) x a none (.record r x.offset a b) := .ruleFails body
  rwa [Attempts.record_behind hb] at h

end RuleFails

/-- A repetition never fails. -/
lemma exists_of_many (h : Runs (.many p) x a o b) : ∃ y, o = some y := by
  generalize hmany : Pattern.many p = q at h
  induction h with
  | many _ _ _ ih => exact ih hmany
  | manyStops _ _ => exact ⟨_, rfl⟩
  | _ => cases hmany

end Runs

end FiniteAutomata.Grammar
