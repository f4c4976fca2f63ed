import FiniteAutomata.Proofs.Regex.Reading
import FiniteAutomata.Regex.Instructions

/-!
# The instructions of an expression list its parts

The instructions of a tree stand in post-order, hence the instruction with the number `n` is the last
of those that build its part, and its operands can be found by counting back from `n`.  In the other
direction the operations alone determine the tree.

* `parts` — the parts of a tree in post-order, and `operationAt` — the operation of a part that stands
  at a number.
* `Lists` — instructions that list the parts of a tree, the operands being numbers of the children.
* `readBack?` — the tree of the last instruction.
* `lists_instructions` — the instructions of an expression list its parts.
-/

namespace FiniteAutomata

/-- The numbers of the operands. -/
def Operation.operands : Operation → List Nat
  | symbol _ => []
  | concat left right | union left right => [left, right]
  | iterate operand | identity operand => [operand]

namespace Regex

/-! ## Parts -/

/-- The parts of an expression, each behind its own parts. -/
def parts : Regex → List Regex
  | symbol c => [symbol c]
  | epsilon => [epsilon]
  | concat left right => left.parts ++ right.parts ++ [concat left right]
  | union left right => left.parts ++ right.parts ++ [union left right]
  | iterate operand => operand.parts ++ [iterate operand]
  | group inner => inner.parts ++ [group inner]

/-- The parts from which an expression is made directly. -/
def children : Regex → List Regex
  | symbol _ | epsilon => []
  | concat left right | union left right => [left, right]
  | iterate operand | group operand => [operand]

/-- The operation that makes an expression with this number, if its parts come right before it. -/
def operationAt (number : Nat) : Regex → Operation
  | symbol c => .symbol (String.singleton c)
  | epsilon => .symbol FiniteAutomata.epsilon
  | concat _ right => .concat (number - 1 - right.parts.length) (number - 1)
  | union _ right => .union (number - 1 - right.parts.length) (number - 1)
  | iterate _ => .iterate (number - 1)
  | group _ => .identity (number - 1)

variable {e part : Regex}

lemma parts_eq_append_self (e : Regex) : ∃ before, e.parts = before ++ [e] := by
  cases e with
  | symbol c => exact ⟨[], rfl⟩
  | epsilon => exact ⟨[], rfl⟩
  | concat left right => exact ⟨left.parts ++ right.parts, rfl⟩
  | union left right => exact ⟨left.parts ++ right.parts, rfl⟩
  | iterate operand => exact ⟨operand.parts, rfl⟩
  | group inner => exact ⟨inner.parts, rfl⟩

/-- The instructions of parts, the first of which has the number behind `made`. -/
def listFrom (made : Nat) (es : List Regex) : List Instruction :=
  es.mapIdx fun i part => ⟨part.operationAt (made + i + 1), some part.render⟩

lemma length_listFrom (made : Nat) (es : List Regex) : (listFrom made es).length = es.length :=
  List.length_mapIdx

lemma listFrom_append (made : Nat) (ds es : List Regex) :
    listFrom made (ds ++ es) = listFrom made ds ++ listFrom (made + ds.length) es := by
  simp only [listFrom, List.mapIdx_append]
  congr 2
  funext i part
  rw [show made + (i + ds.length) + 1 = made + ds.length + i + 1 by omega]

lemma listFrom_singleton (made : Nat) (e : Regex) :
    listFrom made [e] = [⟨e.operationAt (made + 1), some e.render⟩] := rfl

/-- **Every part has the operation and the text that its place demands.** -/
theorem instructionsFrom_eq_listFrom (made : Nat) (e : Regex) :
    e.instructionsFrom made = listFrom made e.parts := by
  induction e generalizing made with
  | symbol c => rfl
  | epsilon => rfl
  | concat left right ihl ihr =>
      simp only [instructionsFrom, ihl, ihr, parts, length_listFrom, listFrom_append, listFrom_singleton,
        List.length_append, operationAt, ← Nat.add_assoc, Nat.add_sub_cancel]
  | union left right ihl ihr =>
      simp only [instructionsFrom, ihl, ihr, parts, length_listFrom, listFrom_append, listFrom_singleton,
        List.length_append, operationAt, ← Nat.add_assoc, Nat.add_sub_cancel]
  | iterate operand ih =>
      simp only [instructionsFrom, ih, parts, length_listFrom, listFrom_append, listFrom_singleton,
        operationAt, Nat.add_sub_cancel]
  | group inner ih =>
      simp only [instructionsFrom, ih, parts, length_listFrom, listFrom_append, listFrom_singleton,
        operationAt, Nat.add_sub_cancel]

lemma length_instructionsFrom (made : Nat) (e : Regex) :
    (e.instructionsFrom made).length = e.parts.length := by
  rw [instructionsFrom_eq_listFrom, length_listFrom]

/-! ## Operands -/

/-- The member of a list with this number, counted from one. -/
def numbered? (es : List Regex) : Nat → Option Regex
  | 0 => none
  | number + 1 => es[number]?

lemma numbered?_parts (before after : List Regex) (e : Regex) :
    numbered? (before ++ e.parts ++ after) (before.length + e.parts.length) = some e := by
  obtain ⟨inside, hparts⟩ := parts_eq_append_self e
  have hlength : before.length + e.parts.length = before.length + inside.length + 1 := by
    rw [hparts, List.length_append, List.length_singleton, Nat.add_assoc]
  rw [hlength, numbered?, hparts]
  simp [← List.append_assoc, List.getElem?_append]

/-- Two operands that are made one behind the other are found under their numbers. -/
lemma numbered?_left_right (before : List Regex) (left right : Regex) :
    numbered? (before ++ left.parts ++ right.parts) (before.length + left.parts.length) = some left ∧
      numbered? (before ++ left.parts ++ right.parts)
        (before.length + left.parts.length + right.parts.length) = some right := by
  refine ⟨numbered?_parts before right.parts left, ?_⟩
  have hright := numbered?_parts (before ++ left.parts) [] right
  rwa [List.append_nil, List.length_append] at hright

variable {ds es : List Regex}

/-- Every expression of the list comes right behind its own parts. -/
def EachBehindParts (es : List Regex) : Prop :=
  ∀ i part, es[i]? = some part → part.parts <:+ es.take (i + 1)

lemma EachBehindParts.append (hd : EachBehindParts ds) (he : EachBehindParts es) :
    EachBehindParts (ds ++ es) := by
  intro i part h
  rw [List.getElem?_append] at h
  split_ifs at h with hi
  · rw [List.take_append_of_le_length (by omega)]
    exact hd i part h
  · rw [List.take_append, show i + 1 - ds.length = i - ds.length + 1 by omega]
    exact (he _ part h).trans (List.suffix_append _ _)

lemma EachBehindParts.concat (hd : EachBehindParts ds) (h : e.parts = ds ++ [e]) :
    EachBehindParts e.parts := by
  intro i part hpart
  rw [h, List.getElem?_append] at hpart
  split_ifs at hpart with hi
  · rw [h, List.take_append_of_le_length (by omega)]
    exact hd i part hpart
  · -- only the expression itself is left
    obtain ⟨hi', rfl⟩ : i = ds.length ∧ e = part := by
      rw [List.getElem?_singleton] at hpart
      split_ifs at hpart with hzero
      exact ⟨by omega, Option.some.inj hpart⟩
    rw [List.take_of_length_le (by rw [h, List.length_append, List.length_singleton]; omega)]

lemma eachBehindParts_parts (e : Regex) : EachBehindParts e.parts := by
  have hnil : EachBehindParts [] := fun i part h => by cases h
  induction e with
  | symbol c => exact hnil.concat rfl
  | epsilon => exact hnil.concat rfl
  | concat left right ihl ihr => exact (ihl.append ihr).concat rfl
  | union left right ihl ihr => exact (ihl.append ihr).concat rfl
  | iterate operand ih => exact ih.concat rfl
  | group inner ih => exact ih.concat rfl

/-- **The operands of a part have the numbers of its children.** -/
theorem numbered?_operands {number : Nat} (h : numbered? e.parts number = some part) :
    (part.operationAt number).operands.map (numbered? e.parts) = part.children.map some := by
  obtain _ | i := number
  · cases h
  obtain ⟨before, hbefore⟩ := eachBehindParts_parts e i part h
  have hparts : e.parts = before ++ part.parts ++ e.parts.drop (i + 1) := by
    rw [hbefore, List.take_append_drop]
  have hlength : i + 1 = before.length + part.parts.length := by
    have hi : i < e.parts.length := (List.getElem?_eq_some_iff.1 h).1
    rw [← List.length_append, hbefore, List.length_take_of_le hi]
  generalize e.parts.drop (i + 1) = after at hparts
  generalize e.parts = es at hparts
  have unary (x : Regex) (hx : part.parts = x.parts ++ [part]) : numbered? es i = some x := by
    rw [hx, List.length_append, List.length_singleton, ← Nat.add_assoc] at hlength
    rw [hparts, hx, Nat.succ.inj hlength, ← List.append_assoc, List.append_assoc]
    exact numbered?_parts before ([part] ++ after) x
  have binary (x y : Regex) (hxy : part.parts = x.parts ++ y.parts ++ [part]) :
      numbered? es (i - y.parts.length) = some x ∧ numbered? es i = some y := by
    rw [hxy] at hlength hparts
    simp only [List.length_append, List.length_singleton] at hlength
    have hi : i = (before ++ x.parts).length + y.parts.length := by
      rw [List.length_append]
      omega
    constructor
    · rw [hi, Nat.add_sub_cancel, List.length_append, hparts]
      simpa only [List.append_assoc] using numbered?_parts before (y.parts ++ [part] ++ after) x
    · rw [hi, hparts]
      simpa only [List.append_assoc] using numbered?_parts (before ++ x.parts) ([part] ++ after) y
  cases part with
  | symbol c => rfl
  | epsilon => rfl
  | concat left right =>
      obtain ⟨hl, hr⟩ := binary left right rfl
      simp only [operationAt, Operation.operands, children, List.map, Nat.add_sub_cancel, hl, hr]
  | union left right =>
      obtain ⟨hl, hr⟩ := binary left right rfl
      simp only [operationAt, Operation.operands, children, List.map, Nat.add_sub_cancel, hl, hr]
  | iterate operand =>
      simp only [operationAt, Operation.operands, children, List.map, Nat.add_sub_cancel,
        unary operand rfl]
  | group inner =>
      simp only [operationAt, Operation.operands, children, List.map, Nat.add_sub_cancel,
        unary inner rfl]

/-! ## The tree of a list of instructions -/

/-- The tree that an operation makes, when these trees have been made before. -/
def made? (built : List Regex) : Operation → Option Regex
  | .symbol s =>
    match s.toList with
    | [] => some epsilon
    | [c] => some (symbol c)
    | _ => none
  | .concat left right => do return concat (← numbered? built left) (← numbered? built right)
  | .union left right => do return union (← numbered? built left) (← numbered? built right)
  | .iterate operand => (numbered? built operand).map iterate
  | .identity operand => (numbered? built operand).map group

/-- The trees that instructions make, in order, behind those that have been made before. The texts
are not looked at. -/
def madeBy? (built : List Regex) (instructions : List Instruction) : Option (List Regex) :=
  instructions.foldlM (fun built i => (made? built i.operation).map (built ++ [·])) built

/-- The tree of the last instruction. -/
def readBack? (instructions : List Instruction) : Option Regex :=
  (madeBy? [] instructions).bind List.getLast?

lemma madeBy?_append (built : List Regex) (is js : List Instruction) :
    madeBy? built (is ++ js) = (madeBy? built is).bind fun built => madeBy? built js :=
  List.foldlM_append

lemma madeBy?_singleton (built : List Regex) (i : Instruction) :
    madeBy? built [i] = (made? built i.operation).map (built ++ [·]) := by
  simp [madeBy?]

/-- **The instructions of an expression make its parts.** -/
theorem madeBy?_instructionsFrom (built : List Regex) (e : Regex) :
    madeBy? built (e.instructionsFrom built.length) = some (built ++ e.parts) := by
  induction e generalizing built with
  | symbol c => simp [instructionsFrom, madeBy?_singleton, made?, parts]
  | epsilon => rfl
  | concat left right ihl ihr =>
      obtain ⟨hleft, hright⟩ := numbered?_left_right built left right
      have ihr := ihr (built ++ left.parts)
      rw [List.length_append] at ihr
      simp only [instructionsFrom, length_instructionsFrom, madeBy?_append, ihl, ihr,
        Option.bind_some, madeBy?_singleton, made?, hleft, hright]
      simp [parts]
  | union left right ihl ihr =>
      obtain ⟨hleft, hright⟩ := numbered?_left_right built left right
      have ihr := ihr (built ++ left.parts)
      rw [List.length_append] at ihr
      simp only [instructionsFrom, length_instructionsFrom, madeBy?_append, ihl, ihr,
        Option.bind_some, madeBy?_singleton, made?, hleft, hright]
      simp [parts]
  | iterate operand ih =>
      have hoperand := numbered?_parts built [] operand
      rw [List.append_nil] at hoperand
      simp only [instructionsFrom, length_instructionsFrom, madeBy?_append, ih, Option.bind_some,
        madeBy?_singleton, made?, hoperand]
      simp [parts]
  | group inner ih =>
      have hinner := numbered?_parts built [] inner
      rw [List.append_nil] at hinner
      simp only [instructionsFrom, length_instructionsFrom, madeBy?_append, ih, Option.bind_some,
        madeBy?_singleton, made?, hinner]
      simp [parts]

lemma readBack?_instructions (e : Regex) : readBack? e.instructions = some e := by
  obtain ⟨before, hparts⟩ := parts_eq_append_self e
  rw [readBack?, instructions, show e.instructionsFrom 0 = e.instructionsFrom [].length from rfl,
    madeBy?_instructionsFrom, hparts]
  simp

/-! ## Texts and trees -/

/-- The instructions of the expression that a text is. -/
def listing (text : String) : Except SyntaxError (List Instruction) :=
  (parse text).map instructions

/-- The instructions list the parts of a tree in post-order: each bears the text of its part, and its
operands are the numbers at which the children stand, right behind their own parts. -/
structure Lists (e : Regex) (is : List Instruction) : Prop where
  instructions : is =
    e.parts.mapIdx fun i part => ⟨part.operationAt (i + 1), some part.render⟩
  children : ∀ number part, numbered? e.parts number = some part →
    (part.operationAt number).operands.map (numbered? e.parts) = part.children.map some
  behind : ∀ number part, numbered? e.parts number = some part →
    part.parts <:+ e.parts.take number

lemma lists_instructions (e : Regex) : Lists e e.instructions where
  instructions := by
    rw [Regex.instructions, instructionsFrom_eq_listFrom]
    simp only [listFrom, Nat.zero_add]
  children _ _ h := numbered?_operands h
  behind number part h := by
    obtain _ | i := number
    · cases h
    · exact eachBehindParts_parts e i part h

lemma listing_eq_ok_iff {text : String} {is : List Instruction} :
    listing text = .ok is ↔ ∃ e, parse text = .ok e ∧ e.instructions = is := by
  rw [listing]
  cases parse text <;> simp [Except.map]

end Regex

end FiniteAutomata
