import FiniteAutomata.ExpressionStore
import FiniteAutomata.Proofs.Numeral

/-!
# Keys tell shapes apart

The key of a shape is its operator between the numbers of its operands.  Every key begins with digits,
possibly none, and then has one character that is no digit; this character tells which operator it is,
and the digits around it are the operands.  So two shapes with the same key are the same shape, and
entries can be looked up by their keys.

* `eq_of_digits_append` — what begins with digits can be cut behind them in one way only.
* **`Shape.render_injective`** — no two shapes have the same key.
-/

namespace FiniteAutomata

/-- Digits in front of a character that is no digit can be told from what follows. -/
lemma eq_of_digits_append {a b : Char} (ha : a.isDigit = false) (hb : b.isDigit = false) :
    ∀ {xs ys us vs : List Char}, (∀ c ∈ xs, c.isDigit = true) → (∀ c ∈ ys, c.isDigit = true) →
      xs ++ a :: us = ys ++ b :: vs → xs = ys ∧ a = b ∧ us = vs
  | [], [], _, _, _, _, h => by simpa using h
  | [], y :: ys, _, _, _, hys, h => by
      obtain ⟨rfl, -⟩ := List.cons.inj h
      rw [hys a (List.mem_cons_self ..)] at ha
      cases ha
  | x :: xs, [], _, _, hxs, _, h => by
      obtain ⟨rfl, -⟩ := List.cons.inj h
      rw [hxs x (List.mem_cons_self ..)] at hb
      cases hb
  | x :: xs, y :: ys, _, _, hxs, hys, h => by
      obtain ⟨rfl, hrest⟩ := List.cons.inj h
      obtain ⟨rfl, hmark, htail⟩ := eq_of_digits_append ha hb
        (fun c hc => hxs c (List.mem_cons_of_mem _ hc))
        (fun c hc => hys c (List.mem_cons_of_mem _ hc)) hrest
      exact ⟨rfl, hmark, htail⟩

namespace Shape

/-- The digits that a key begins with. -/
def digits : Shape → List Char
  | symbol _ => []
  | concat left _ => (toString left).toList
  | union left _ => (toString left).toList
  | iterate operand => (toString operand).toList

/-- The character behind these digits. -/
def mark : Shape → Char
  | symbol _ => '\''
  | concat _ _ => '+'
  | union _ _ => '|'
  | iterate _ => '*'

/-- What follows behind the character. -/
def behindMark : Shape → List Char
  | symbol s => s.toList ++ ['\'']
  | concat _ right => (toString right).toList
  | union _ right => (toString right).toList
  | iterate _ => []

lemma toList_render (shape : Shape) :
    shape.render.toList = shape.digits ++ shape.mark :: shape.behindMark := by
  cases shape <;> simp [render, digits, mark, behindMark]

lemma isDigit_of_mem_digits {shape : Shape} {c : Char} (h : c ∈ shape.digits) :
    c.isDigit = true := by
  cases shape with
  | symbol s => cases h
  | concat left right => exact isDigit_of_mem_toString h
  | union left right => exact isDigit_of_mem_toString h
  | iterate operand => exact isDigit_of_mem_toString h

lemma isDigit_mark (shape : Shape) : shape.mark.isDigit = false := by
  cases shape <;> rfl

/-- **No two shapes have the same key.** -/
theorem render_injective : Function.Injective render := by
  intro shape shape' h
  have hlists := congrArg String.toList h
  rw [toList_render, toList_render] at hlists
  obtain ⟨hdigits, hmark, hbehind⟩ := eq_of_digits_append (isDigit_mark shape) (isDigit_mark shape')
    (fun c hc => isDigit_of_mem_digits hc) (fun c hc => isDigit_of_mem_digits hc) hlists
  -- shapes with the same mark have the same operator, and then the operands are in the same places
  cases shape with
  | symbol s =>
      cases shape' with
      | symbol t => rw [String.toList_inj.1 (List.append_cancel_right hbehind)]
      | _ => simp [mark] at hmark
  | concat i j =>
      cases shape' with
      | concat k l => rw [toString_nat_injective hdigits, toString_nat_injective hbehind]
      | _ => simp [mark] at hmark
  | union i j =>
      cases shape' with
      | union k l => rw [toString_nat_injective hdigits, toString_nat_injective hbehind]
      | _ => simp [mark] at hmark
  | iterate i =>
      cases shape' with
      | iterate k => rw [toString_nat_injective hdigits]
      | _ => simp [mark] at hmark

end Shape

end FiniteAutomata
