import FiniteAutomata.Regex.Parser
import Mathlib.Computability.Language

/-!
# The shape and the language of an expression

A tree is the reading of a text only if its operators stand where the text would put them: repetition
binds tighter than sequence, sequence tighter than choice, and chains group to the left.  A tree
against these rules still has a text, which reads as another tree.

* `WellFormed` — trees that follow the rules.
* `language` — the words that an expression stands for.
* `plain` — an expression without its groups; it has the same language.
* `symbols`, `symbols_eq_filter` — the characters that stand for themselves; each of them occurs in a word.
-/

namespace FiniteAutomata.Regex

open Computability

/-- How tightly the operator of an expression binds. -/
def rank : Regex → Nat
  | union _ _ => 0
  | concat _ _ => 1
  | _ => 2

/-- The operands of every operator bind as tightly as they must for the tree to be what its text
says, and no character that stands for itself is reserved or a space. -/
def WellFormed : Regex → Prop
  | symbol c => isReserved c = false ∧ c ≠ ' '
  | epsilon => True
  | concat left right => (left.WellFormed ∧ 1 ≤ left.rank) ∧ right.WellFormed ∧ 2 ≤ right.rank
  | union left right => left.WellFormed ∧ right.WellFormed ∧ 1 ≤ right.rank
  | iterate operand => operand.WellFormed ∧ 2 ≤ operand.rank
  | group inner => inner.WellFormed

/-- The words of an expression. -/
def language : Regex → Language Char
  | symbol c => {[c]}
  | epsilon => 1
  | concat left right => left.language * right.language
  | union left right => left.language + right.language
  | iterate operand => operand.language∗
  | group inner => inner.language

/-- The expression without its groups. -/
def plain : Regex → Regex
  | symbol c => symbol c
  | epsilon => epsilon
  | concat left right => concat left.plain right.plain
  | union left right => union left.plain right.plain
  | iterate operand => iterate operand.plain
  | group inner => inner.plain

lemma language_plain (e : Regex) : e.plain.language = e.language := by
  induction e with
  | symbol c => rfl
  | epsilon => rfl
  | concat left right ihl ihr => rw [plain, language, language, ihl, ihr]
  | union left right ihl ihr => rw [plain, language, language, ihl, ihr]
  | iterate operand ih => rw [plain, language, language, ih]
  | group inner ih => rw [plain, language, ih]

/-! ## Symbols -/

/-- The characters that stand for themselves, in their order. -/
def symbols : Regex → List Char
  | symbol c => [c]
  | epsilon => []
  | concat left right => left.symbols ++ right.symbols
  | union left right => left.symbols ++ right.symbols
  | iterate operand => operand.symbols
  | group inner => inner.symbols

variable {e : Regex} {c : Char}

lemma symbols_plain (e : Regex) : e.plain.symbols = e.symbols := by
  induction e with
  | symbol c => rfl
  | epsilon => rfl
  | concat left right ihl ihr => rw [plain, symbols, symbols, ihl, ihr]
  | union left right ihl ihr => rw [plain, symbols, symbols, ihl, ihr]
  | iterate operand ih => rw [plain, symbols, symbols, ih]
  | group inner ih => rw [plain, symbols, ih]

/-- Whether a character is neither an operator nor a parenthesis nor a space. -/
def standsForItself (c : Char) : Bool := !isReserved c && c != ' '

/-- The symbols are the characters of the text that stand for themselves. -/
lemma symbols_eq_filter (he : e.WellFormed) : e.symbols = e.chars.filter standsForItself := by
  induction e with
  | symbol c => simp [symbols, chars, standsForItself, he.1, he.2]
  | epsilon => rfl
  | concat left right ihl ihr =>
      rw [symbols, chars, List.filter_append, ihl he.1.1, ihr he.2.1]
  | union left right ihl ihr =>
      rw [symbols, chars, List.filter_append, ihl he.1, ihr he.2.1]
      rfl
  | iterate operand ih =>
      rw [symbols, chars, List.filter_append, ih he.1]
      exact (List.append_nil _).symm
  | group inner ih =>
      have hopen : standsForItself '(' = false := rfl
      have hclose : standsForItself ')' = false := rfl
      simp [symbols, chars, ih he, hopen, hclose]

lemma mem_symbols_iff (he : e.WellFormed) :
    c ∈ e.symbols ↔ c ∈ e.chars ∧ standsForItself c = true := by
  rw [symbols_eq_filter he, List.mem_filter]

/-- Every expression stands for some word. -/
lemma exists_mem_language : ∀ e : Regex, ∃ w, w ∈ e.language
  | symbol c => ⟨[c], rfl⟩
  | epsilon => ⟨[], rfl⟩
  | concat left right =>
      have ⟨u, hu⟩ := exists_mem_language left
      have ⟨v, hv⟩ := exists_mem_language right
      ⟨u ++ v, Language.append_mem_mul hu hv⟩
  | union left _ =>
      have ⟨u, hu⟩ := exists_mem_language left
      ⟨u, .inl hu⟩
  | iterate _ => ⟨[], Language.nil_mem_kstar _⟩
  | group inner => exists_mem_language inner

/-- **Every symbol occurs in a word.** -/
theorem exists_mem_language_of_mem_symbols (hc : c ∈ e.symbols) : ∃ w ∈ e.language, c ∈ w := by
  induction e with
  | symbol d => exact ⟨[d], rfl, hc⟩
  | epsilon => cases hc
  | concat left right ihl ihr =>
      rcases List.mem_append.1 hc with hc | hc
      · obtain ⟨u, hu, hcu⟩ := ihl hc
        obtain ⟨v, hv⟩ := exists_mem_language right
        exact ⟨u ++ v, Language.append_mem_mul hu hv, List.mem_append_left _ hcu⟩
      · obtain ⟨u, hu⟩ := exists_mem_language left
        obtain ⟨v, hv, hcv⟩ := ihr hc
        exact ⟨u ++ v, Language.append_mem_mul hu hv, List.mem_append_right _ hcv⟩
  | union left right ihl ihr =>
      rcases List.mem_append.1 hc with hc | hc
      · obtain ⟨u, hu, hcu⟩ := ihl hc
        exact ⟨u, .inl hu, hcu⟩
      · obtain ⟨v, hv, hcv⟩ := ihr hc
        exact ⟨v, .inr hv, hcv⟩
  | iterate operand ih =>
      obtain ⟨u, hu, hcu⟩ := ih hc
      have hle : operand.language ≤ operand.language∗ := le_kstar
      exact ⟨u, hle hu, hcu⟩
  | group inner ih => exact ih hc

lemma charsBefore_eq (e : Regex) (rest : List Char) : e.charsBefore rest = e.chars ++ rest := by
  induction e generalizing rest with
  | symbol c => rfl
  | epsilon => rfl
  | concat left right ihl ihr => rw [charsBefore, ihl, ihr, chars, List.append_assoc]
  | union left right ihl ihr => rw [charsBefore, ihl, ihr, chars, List.append_assoc, List.cons_append]
  | iterate operand ih => rw [charsBefore, ih, chars, List.append_assoc, List.singleton_append]
  | group inner ih => simp [charsBefore, ih, chars]

lemma toList_render (e : Regex) : e.render.toList = e.chars := by
  rw [render, String.toList_ofList, charsBefore_eq, List.append_nil]

end FiniteAutomata.Regex
