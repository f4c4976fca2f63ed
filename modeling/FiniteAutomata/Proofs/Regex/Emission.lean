import FiniteAutomata.Proofs.Regex.Agreement
import FiniteAutomata.Proofs.Regex.Listing
import FiniteAutomata.Proofs.Regex.Tree

/-!
# Instructions from the spans of a tree

The tree that the grammar builds has the operands of a chain side by side, and it has no texts but only
spans.  A walk over it emits one instruction after the other: in a chain each operator is applied to all that
stands before it, so that chains group to the left, and the text of an instruction is cut out of the whole
text, from the byte where the chain begins to the byte where the last of its operands ends.  A cut may fail,
between the bytes of a character or behind the end of the text, and a node may lack the children that the walk
looks for.  Neither happens on a tree of the grammar, and the instructions are those of the expression.

* `Text.slice?`, **`Text.slice?_eq_some_iff`** — the part of a text between two of its bytes.
* `Emit.chain`, `emitted` — the walk, and the instructions that it emits.
* `ReadsAs` — a text that the grammar reads as a chain, from which the instructions of an expression come.
* **`readsAs_of_wellFormed`** — the text of every well-formed expression is such a text.
* **`emission_inverse_render`** — texts and trees correspond to each other through the instructions.
-/

namespace FiniteAutomata

/-! ## Slices -/

namespace Text

/-- The part of a text between two of its bytes, if these are in order and a character begins or the text
ends at each of them. -/
def slice? (text : String) (start stop : Nat) : Option String := do
  let first ← text.pos? ⟨start⟩
  let last ← text.pos? ⟨stop⟩
  return (← text.slice? first last).copy

variable {text part : String} {start stop : Nat} {first last : text.Pos}

lemma pos?_eq_some_iff : text.pos? ⟨start⟩ = some first ↔ first.offset = ⟨start⟩ := by
  rw [String.pos?, String.Slice.pos?]
  constructor
  · intro h
    split_ifs at h with hvalid
    · obtain rfl := Option.some.inj h
      rfl
    · cases h
  · intro h
    have hvalid : String.Pos.Raw.isValidForSlice text.toSlice ⟨start⟩ = true := by
      rw [String.Pos.Raw.isValidForSlice_eq_true_iff, ← h]
      simpa using first.isValid
    rw [dif_pos hvalid, Option.map_some, Option.some.injEq, String.Pos.ext_iff, h]
    rfl

lemma map_copy_slice?_eq_some_iff :
    (text.slice? first last).map String.Slice.copy = some part ↔
      ∃ before after, first.Splits before (part ++ after) ∧ last.Splits (before ++ part) after := by
  rw [← String.copy_slice_eq_iff_splits, String.slice?]
  split_ifs with hle
  · simp [hle]
  · simp [hle]

/-- **A slice is what stands between two parts of the text** that take up the given numbers of bytes. -/
theorem slice?_eq_some_iff :
    slice? text start stop = some part ↔ ∃ before after, text = before ++ part ++ after ∧
      before.utf8ByteSize = start ∧ (before ++ part).utf8ByteSize = stop := by
  have hslice : slice? text start stop = some part ↔ ∃ first last : text.Pos,
      first.offset = ⟨start⟩ ∧ last.offset = ⟨stop⟩ ∧ ∃ before after,
        first.Splits before (part ++ after) ∧ last.Splits (before ++ part) after := by
    simp only [← map_copy_slice?_eq_some_iff, ← pos?_eq_some_iff]
    simp [slice?, Option.bind_eq_some_iff]
  rw [hslice]
  constructor
  · rintro ⟨first, last, hfirst, hlast, before, after, hbefore, hafter⟩
    rw [hbefore.offset_eq_rawEndPos] at hfirst
    rw [hafter.offset_eq_rawEndPos] at hlast
    exact ⟨before, after, hafter.eq_append, congrArg String.Pos.Raw.byteIdx hfirst,
      congrArg String.Pos.Raw.byteIdx hlast⟩
  · rintro ⟨before, after, rfl, rfl, rfl⟩
    have hfirst : ∃ first : (before ++ part ++ after).Pos, first.Splits before (part ++ after) := by
      rw [String.append_assoc]
      exact ⟨_, String.Pos.splits_append_rawEndPos⟩
    obtain ⟨first, hfirst⟩ := hfirst
    have hlast := String.Pos.splits_append_rawEndPos (s := before ++ part) (t := after)
    exact ⟨first, _, hfirst.offset_eq_rawEndPos, hlast.offset_eq_rawEndPos, before, after, hfirst, hlast⟩

/-- A character of two bytes is cut out as a whole. -/
example : slice? "é*" 0 2 = some "é" ∧ slice? "é*" 1 3 = none := by
  decide +kernel

end Text

namespace Grammar

/-! ## The walk -/

/-- A computation that emits instructions, unless it breaks off. -/
abbrev Emit := StateT (List Instruction) Option

namespace Emit

/-- Adds an instruction with the text between two bytes, and gives its number. -/
def emit (text : String) (operation : Operation) (start stop : Nat) : Emit Nat := do
  let part ← Text.slice? text start stop
  modify (· ++ [⟨operation, some part⟩])
  return (← get).length

end Emit

/-- The rules of which the children form a chain: operands with an operator between any two of them, or one
operand with operators behind it. -/
inductive Chain
  | union
  | concat
  | iteration

namespace Emit

mutual

/-- The first operand of a chain, or an operand behind an operator. -/
def operand (text : String) : Chain → Pair → Emit Nat
  | .union, pair => chain text .concat pair
  | .concat, pair => chain text .iteration pair
  | .iteration, pair => primary text pair
termination_by _ pair => (sizeOf pair, 1)

/-- A chain: the first operand, and then one operator after the other. -/
def chain (text : String) (c : Chain) : Pair → Emit Nat
  | .node _ start _ (head :: others) => do joined text c start (← operand text c head) others
  | .node _ _ _ [] => failure
termination_by pair => (sizeOf pair, 0)

/-- What comes of further operators behind a part of a chain, which has begun at the byte `start` and has
got the number `result`. -/
def joined (text : String) (c : Chain) (start result : Nat) : List Pair → Emit Nat
  | [] => return result
  | next :: others => do joined text c start (← join text c start result next) others
termination_by others => (sizeOf others, 0)

/-- What comes of one operator. -/
def join (text : String) (c : Chain) (start result : Nat) (next : Pair) : Emit Nat :=
  match c with
  | .union => do emit text (.union result (← operand text .union next)) start next.stop
  | .concat => do emit text (.concat result (← operand text .concat next)) start next.stop
  | .iteration => emit text (.iterate result) start next.stop
termination_by (sizeOf next, 2)

/-- A group or a symbol. -/
def primary (text : String) : Pair → Emit Nat
  | .node .group start stop (inner :: _) => do
    emit text (.identity (← chain text .union inner)) start stop
  | .node .symbol start stop _ => do
    let symbol ← Text.slice? text start stop
    emit text (.symbol (if symbol = " " then epsilon else symbol)) start stop
  | _ => failure
termination_by pair => (sizeOf pair, 0)

end

end Emit

/-- The instructions that the walk emits for the pairs of a text. -/
def emitted (text : String) (pairs : List Pair) : Option (List Instruction) :=
  match pairs.head?.bind (·.inner.head?) with
  | some pair => ((Emit.chain text .union pair).run []).map (·.2)
  | none => some []

/-! ## What is emitted -/

namespace Emit

variable {m : Emit Nat} {f : Nat → Emit Nat} {made is js : List Instruction} {text : String}
  {before cs ds rest : List Char}

/-- Behind the instructions `made` the instructions `is` are emitted, and the number of the last one is
given. -/
def Makes (m : Emit Nat) (made is : List Instruction) : Prop :=
  m.run made = some ((made ++ is).length, made ++ is)

lemma Makes.bind (h : Makes m made is) (hf : Makes (f (made ++ is).length) (made ++ is) js) :
    Makes (m >>= f) made (is ++ js) := by
  rw [Makes, StateT.run_bind, h, ← List.append_assoc]
  exact hf

lemma slice?_behind (h : text.toList = before ++ (cs ++ rest)) :
    Text.slice? text (String.ofList before).utf8ByteSize (String.ofList (before ++ cs)).utf8ByteSize =
      some (String.ofList cs) := by
  rw [Text.slice?_eq_some_iff]
  refine ⟨String.ofList before, String.ofList rest, ?_, rfl, ?_⟩
  · rw [← String.toList_inj, h]
    simp
  · rw [String.ofList_append]

/-- The text of an instruction is what stands between its bytes. -/
lemma makes_emit (h : text.toList = before ++ (cs ++ rest)) (operation : Operation)
    (made : List Instruction) :
    Makes (emit text operation (String.ofList before).utf8ByteSize
      (String.ofList (before ++ cs)).utf8ByteSize) made [⟨operation, some (String.ofList cs)⟩] := by
  rw [Makes, emit, slice?_behind h]
  rfl

lemma makes_emit_append (h : text.toList = before ++ (cs ++ (ds ++ rest))) (operation : Operation)
    (made : List Instruction) :
    Makes (emit text operation (String.ofList before).utf8ByteSize
      (String.ofList (before ++ cs ++ ds)).utf8ByteSize) made
        [⟨operation, some (String.ofList (cs ++ ds))⟩] := by
  rw [List.append_assoc before]
  exact makes_emit (by rw [h, List.append_assoc]) operation made

lemma makes_symbol (h : text.toList = before ++ (cs ++ rest)) (inner : List Pair)
    (made : List Instruction) :
    Makes (primary text (.node .symbol (String.ofList before).utf8ByteSize
      (String.ofList (before ++ cs)).utf8ByteSize inner)) made
        [⟨.symbol (if String.ofList cs = " " then epsilon else String.ofList cs),
          some (String.ofList cs)⟩] := by
  rw [Makes, primary, slice?_behind h]
  exact makes_emit h _ made

lemma makes_group {pair : Pair} (h : text.toList = before ++ (cs ++ rest))
    (hpair : Makes (chain text .union pair) made is) :
    Makes (primary text (.node .group (String.ofList before).utf8ByteSize
      (String.ofList (before ++ cs)).utf8ByteSize [pair])) made
        (is ++ [⟨.identity (made ++ is).length, some (String.ofList cs)⟩]) := by
  rw [primary]
  exact hpair.bind (makes_emit h _ _)

lemma joined_concat (c : Chain) (start result : Nat) (others : List Pair) (next : Pair) :
    joined text c start result (others ++ [next]) =
      joined text c start result others >>= fun result => join text c start result next := by
  induction others generalizing result with
  | nil => simp only [List.nil_append, joined, bind_pure, pure_bind]
  | cons other others ih => simp only [List.cons_append, joined, ih, bind_assoc]

end Emit

/-! ## Repetitions -/

section Repetitions

variable {p : Pattern} {x y z : Position} {ps qs : List Pair}

/-- A pattern has been read again and again, whether or not it could be read once more. -/
inductive Repeats (p : Pattern) (x : Position) : Position → List Pair → Prop
  | none : Repeats p x x []
  | more {y z : Position} {ps qs : List Pair} (h : Repeats p x y ps) (once : Builds p y z qs) :
      Repeats p x z (ps ++ qs)

lemma Repeats.builds_append (h : Repeats p x y ps) (hmany : Builds (.many p) y z qs) :
    Builds (.many p) x z (ps ++ qs) := by
  induction h generalizing qs with
  | none => exact hmany
  | more _ once ih =>
      rw [List.append_assoc]
      exact ih (.many once hmany)

lemma Repeats.builds_many (h : Repeats p x y ps) (hfails : Fails p y.toPlace) :
    Builds (.many p) x y ps := by
  have := h.builds_append (.manyStops hfails)
  rwa [List.append_nil] at this

end Repetitions

namespace Chain

/-- The rule of a chain. -/
def rule : Chain → Rule
  | union => .union
  | concat => .concat
  | iteration => .iteration

/-- What the first operand of a chain is. -/
def head : Chain → Pattern
  | union => .rule .concat
  | concat => .rule .iteration
  | iteration => .primary

/-- What may follow any number of times. -/
def tail : Chain → Pattern
  | union => .alternative
  | concat => .rule .iteration
  | iteration => .rule .star

lemma body_rule (c : Chain) : c.rule.body = .seq c.head (.many c.tail) := by
  cases c <;> rfl

/-- No operand of the chain goes on at a place. -/
def OperandsEnd : Chain → Place → Prop
  | union, x => Fails concat.tail x ∧ Fails iteration.tail x
  | concat, x => Fails iteration.tail x
  | iteration, _ => True

end Chain

/-! ## Chains -/

open Pattern Rule
open Regex (isReserved)

variable {c : Chain} {e left right inner : Regex} {text : String} {before cs rest : List Char}
  {is : List Instruction}

/-- Wherever the text of an expression stands in a text, and none of its operands goes on behind it, the
grammar reads it as the operands of a chain, and what is emitted for these are the instructions of the
expression. -/
def ReadsAs (c : Chain) (e : Regex) : Prop :=
  ∀ (text : String) (before rest : List Char), text.toList = before ++ (e.chars ++ rest) →
    c.OperandsEnd (Position.behind (before ++ e.chars) rest).toPlace →
      ∃ x first others, Builds c.head (.behind before (e.chars ++ rest)) x [first] ∧
        Repeats c.tail x (.behind (before ++ e.chars) rest) others ∧
        ∀ made, Emit.Makes (Emit.operand text c first >>= fun result =>
          Emit.joined text c (String.ofList before).utf8ByteSize result others) made
            (e.instructionsFrom made.length)

namespace ReadsAs

/-- If a chain does not go on, its rule reads the text, and so many instructions come of the pair. -/
lemma close (h : ReadsAs c e) (htext : text.toList = before ++ (e.chars ++ rest))
    (hends : c.OperandsEnd (Position.behind (before ++ e.chars) rest).toPlace)
    (hstops : Fails c.tail (Position.behind (before ++ e.chars) rest).toPlace) :
    ∃ pair, Builds (.rule c.rule) (.behind before (e.chars ++ rest)) (.behind (before ++ e.chars) rest)
        [pair] ∧ pair.stop = (Position.behind (before ++ e.chars) rest).byte ∧
      ∀ made, Emit.Makes (Emit.chain text c pair) made (e.instructionsFrom made.length) := by
  obtain ⟨x, first, others, hfirst, hothers, hmakes⟩ := h text before rest htext hends
  have hbody : Builds c.rule.body (.behind before (e.chars ++ rest)) (.behind (before ++ e.chars) rest)
      (first :: others) := by
    rw [c.body_rule]
    exact .seq hfirst (hothers.builds_many hstops)
  refine ⟨_, .rule hbody, rfl, fun made => ?_⟩
  rw [Emit.chain]
  exact hmakes made

/-- A single operand is a chain. -/
lemma of_operand (h : ∀ (text : String) (before rest : List Char),
      text.toList = before ++ (e.chars ++ rest) →
        c.OperandsEnd (Position.behind (before ++ e.chars) rest).toPlace →
          ∃ first, Builds c.head (.behind before (e.chars ++ rest)) (.behind (before ++ e.chars) rest)
              [first] ∧
            ∀ made, Emit.Makes (Emit.operand text c first) made (e.instructionsFrom made.length)) :
    ReadsAs c e := by
  intro text before rest htext hends
  obtain ⟨first, hfirst, hmakes⟩ := h text before rest htext hends
  refine ⟨_, first, [], hfirst, .none, fun made => ?_⟩
  simpa only [Emit.joined, bind_pure] using hmakes made

/-- A chain is read on over one more operator, of which the further instructions come. -/
lemma extend {js : List Instruction → List Instruction} (h : ReadsAs c left)
    (hchars : e.chars = left.chars ++ cs)
    (hinstructions : ∀ made : List Instruction, e.instructionsFrom made.length =
      left.instructionsFrom made.length ++ js made)
    (hnext : ∀ (text : String) (before rest : List Char),
      text.toList = before ++ (left.chars ++ (cs ++ rest)) →
        c.OperandsEnd (Position.behind (before ++ left.chars ++ cs) rest).toPlace →
          c.OperandsEnd (Position.behind (before ++ left.chars) (cs ++ rest)).toPlace ∧
          ∃ next, Builds c.tail (.behind (before ++ left.chars) (cs ++ rest))
              (.behind (before ++ left.chars ++ cs) rest) [next] ∧
            ∀ made, Emit.Makes (Emit.join text c (String.ofList before).utf8ByteSize
                (made ++ left.instructionsFrom made.length).length next)
              (made ++ left.instructionsFrom made.length) (js made)) : ReadsAs c e := by
  intro text before rest htext hends
  rw [hchars, List.append_assoc] at htext
  rw [hchars, ← List.append_assoc] at hends ⊢
  rw [List.append_assoc left.chars]
  obtain ⟨hleft, next, hbuilds, hjoin⟩ := hnext text before rest htext hends
  obtain ⟨x, first, others, hfirst, hothers, hmakes⟩ := h text before _ htext hleft
  refine ⟨x, first, others ++ [next], hfirst, hothers.more hbuilds, fun made => ?_⟩
  simp only [Emit.joined_concat, hinstructions, ← bind_assoc]
  exact (hmakes made).bind (hjoin made)

lemma concat_of_iteration (h : ReadsAs .iteration e) : ReadsAs .concat e :=
  of_operand fun text before rest htext hends => by
    obtain ⟨pair, hpair, -, hmakes⟩ := h.close htext trivial hends
    exact ⟨pair, hpair, by simpa only [Emit.operand] using hmakes⟩

lemma union_of_concat (h : ReadsAs .concat e) : ReadsAs .union e :=
  of_operand fun text before rest htext hends => by
    obtain ⟨pair, hpair, -, hmakes⟩ := h.close htext hends.2 hends.1
    exact ⟨pair, hpair, by simpa only [Emit.operand] using hmakes⟩

end ReadsAs

/-! ## Where a chain ends -/

section Ends

variable {n : Nat}

lemma fails_star (h : rest.head? ≠ some '*') : Fails (.rule .star) ⟨n, rest⟩ :=
  ⟨.empty, _, .ruleFails (.charFails h)⟩

lemma fails_iteration (h : ∀ d, rest.head? = some d → isReserved d = true ∧ d ≠ '(') :
    Fails (.rule .iteration) ⟨n, rest⟩ :=
  ⟨⟨n, []⟩, _, runs_iteration_refused (.inl rfl) h⟩

/-- At the end of a group no chain goes on. -/
lemma Stops.fails (h : Stops rest) (c : Chain) : Fails c.tail ⟨n, rest⟩ := by
  cases c with
  | union =>
      refine ⟨.empty, _, .seqFails (.charFails fun hbar => ?_)⟩
      exact absurd (h '|' hbar) (by decide)
  | concat =>
      refine fails_iteration fun d hd => ?_
      obtain rfl := h d hd
      exact ⟨rfl, by decide⟩
  | iteration => exact fails_star fun hstar => absurd (h '*' hstar) (by decide)

/-- At the end of a group no operand goes on. -/
lemma Stops.operandsEnd (h : Stops rest) (c : Chain) : c.OperandsEnd ⟨n, rest⟩ := by
  cases c with
  | union => exact ⟨h.fails .concat, h.fails .iteration⟩
  | concat => exact h.fails .iteration
  | iteration => trivial

end Ends

/-! ## Expressions -/

lemma ofList_chars (e : Regex) : String.ofList e.chars = e.render := by
  rw [← String.toList_inj, String.toList_ofList, Regex.toList_render]

namespace ReadsAs

/-- A character that is not reserved is an operand. -/
lemma of_char {a : Char} (ha : isReserved a = false) (hchars : e.chars = [a])
    (hinstructions : ∀ made, e.instructionsFrom made =
      [⟨.symbol (if String.ofList [a] = " " then epsilon else String.ofList [a]),
        some (String.ofList [a])⟩]) : ReadsAs .iteration e :=
  of_operand fun text before rest htext _ => by
    rw [hchars] at htext ⊢
    have hopen : a ≠ '(' := by
      rintro rfl
      exact absurd ha (by decide)
    have hgroup : Fails (rule group) ⟨before.length, a :: rest⟩ :=
      ⟨.empty, _, .ruleFails (.seqFails (.charFails (by simpa using hopen)))⟩
    have hreserved : Fails reserved ⟨before.length, a :: rest⟩ := by
      refine ⟨.empty, _, runs_reserved_fails fun d hd => ?_⟩
      obtain rfl := Option.some.inj hd
      exact ha
    refine ⟨_, .choiceFails hgroup (.rule (.seq (.not hreserved) (builds_any a before rest))),
      fun made => ?_⟩
    rw [Emit.operand, hinstructions]
    exact Emit.makes_symbol htext _ made

/-- What stands in parentheses is an operand. -/
lemma group (h : ReadsAs .union inner) : ReadsAs .iteration (.group inner) :=
  of_operand fun text before rest htext _ => by
    have hinner : text.toList = (before ++ ['(']) ++ (inner.chars ++ ')' :: rest) := by
      rw [htext]
      simp [Regex.chars]
    have hstops : Stops (')' :: rest) := fun d hd => (Option.some.inj hd).symm
    obtain ⟨pair, hpair, -, hmakes⟩ := h.close hinner (hstops.operandsEnd _) (hstops.fails _)
    have hrest : (Regex.group inner).chars ++ rest = '(' :: (inner.chars ++ ')' :: rest) := by
      simp [Regex.chars]
    have hbehind : before ++ (Regex.group inner).chars = before ++ ['('] ++ inner.chars ++ [')'] := by
      simp [Regex.chars]
    have hgroup (made : List Instruction) := Emit.makes_group htext (hmakes made)
    rw [hbehind] at hgroup ⊢
    rw [hrest]
    refine ⟨_, .choice (.rule (.seq (builds_char '(' before _) (.seq hpair (builds_char ')' _ rest)))),
      fun made => ?_⟩
    rw [Emit.operand, Regex.instructionsFrom, ← List.length_append, ← ofList_chars]
    exact hgroup made

/-- A star is one more operator behind a repetition. -/
lemma iterate (h : ReadsAs .iteration left) : ReadsAs .iteration (.iterate left) := by
  have hchars : (Regex.iterate left).chars = left.chars ++ ['*'] := rfl
  refine h.extend hchars (fun made => rfl) fun text before rest htext _ => ⟨trivial, _,
    .rule (builds_char '*' _ rest), fun made => ?_⟩
  rw [Emit.join, ← ofList_chars, ← List.length_append]
  exact Emit.makes_emit_append htext _ _

/-- An operand is one more factor behind a sequence. -/
lemma concat (hl : ReadsAs .concat left) (hr : ReadsAs .iteration right) (hright : right.WellFormed) :
    ReadsAs .concat (.concat left right) := by
  have hchars : (Regex.concat left right).chars = left.chars ++ right.chars := rfl
  refine hl.extend hchars (fun made => List.append_assoc ..) fun text before rest htext hends => ?_
  obtain ⟨a, as, has, hstar, -⟩ := Regex.exists_chars_eq_cons hright
  have hnext : text.toList = (before ++ left.chars) ++ (right.chars ++ rest) := by
    rw [htext, List.append_assoc]
  obtain ⟨pair, hpair, hstop, hmakes⟩ := hr.close hnext trivial hends
  refine ⟨fails_star (by simp [has, hstar]), pair, hpair, fun made => ?_⟩
  rw [Emit.join, Emit.operand, hstop, ← ofList_chars]
  simp only [← List.length_append]
  exact (hmakes _).bind (Emit.makes_emit_append htext _ _)

/-- A sequence behind a bar is one more alternative. -/
lemma union (hl : ReadsAs .union left) (hr : ReadsAs .concat right) :
    ReadsAs .union (.union left right) := by
  have hchars : (Regex.union left right).chars = left.chars ++ '|' :: right.chars := rfl
  refine hl.extend hchars (fun made => List.append_assoc ..) fun text before rest htext hends => ?_
  have hnext : text.toList = (before ++ left.chars ++ ['|']) ++ (right.chars ++ rest) := by
    simpa using htext
  have hbehind : before ++ left.chars ++ ['|'] ++ right.chars =
      before ++ left.chars ++ '|' :: right.chars := by
    simp
  rw [← hbehind] at hends
  obtain ⟨pair, hpair, hstop, hmakes⟩ := hr.close hnext hends.2 hends.1
  rw [hbehind] at hpair hstop
  have hbar : Fails (rule iteration) ⟨(before ++ left.chars).length, '|' :: (right.chars ++ rest)⟩ :=
    fails_iteration (by simp [isReserved])
  refine ⟨⟨hbar, fails_star (by simp)⟩, pair, .seq (builds_char '|' _ (right.chars ++ rest)) hpair,
    fun made => ?_⟩
  rw [Emit.join, Emit.operand, hstop, ← ofList_chars]
  simp only [← List.length_append]
  exact (hmakes _).bind (Emit.makes_emit_append htext _ _)

end ReadsAs

/-- **The text of a well-formed expression is read as its rank allows**, and its instructions are emitted. -/
theorem readsAs_of_wellFormed (he : e.WellFormed) : ReadsAs .union e ∧
    (1 ≤ e.rank → ReadsAs .concat e) ∧ (2 ≤ e.rank → ReadsAs .iteration e) := by
  -- an operand is also a sequence of factors, and these are also alternatives
  have of_operand {x : Regex} (h : ReadsAs .iteration x) : ReadsAs .union x ∧
      (1 ≤ x.rank → ReadsAs .concat x) ∧ (2 ≤ x.rank → ReadsAs .iteration x) :=
    ⟨h.concat_of_iteration.union_of_concat, fun _ => h.concat_of_iteration, fun _ => h⟩
  induction e with
  | symbol a =>
      have hspace : String.ofList [a] ≠ " " := by
        intro h
        rw [← String.toList_inj, String.toList_ofList] at h
        exact he.2 (List.head_eq_of_cons_eq h)
      exact of_operand (.of_char he.1 rfl fun made => by rw [if_neg hspace]; rfl)
  | epsilon => exact of_operand (.of_char (a := ' ') rfl rfl fun made => rfl)
  | concat left right ihl ihr =>
      obtain ⟨⟨hl, hrankl⟩, hr, hrankr⟩ := he
      have h : ReadsAs .concat (Regex.concat left right) :=
        .concat ((ihl hl).2.1 hrankl) ((ihr hr).2.2 hrankr) hr
      exact ⟨h.union_of_concat, fun _ => h, fun hrank => absurd hrank (by simp [Regex.rank])⟩
  | union left right ihl ihr =>
      obtain ⟨hl, hr, hrankr⟩ := he
      have h : ReadsAs .union (Regex.union left right) := .union (ihl hl).1 ((ihr hr).2.1 hrankr)
      exact ⟨h, fun hrank => absurd hrank (by simp [Regex.rank]), fun hrank =>
        absurd hrank (by simp [Regex.rank])⟩
  | iterate operand ih => exact of_operand (.iterate ((ih he.1).2.2 he.2))
  | group inner ih => exact of_operand (.group (ih he).1)

/-! ## Whole texts -/

/-- The grammar builds a tree of the text, and the walk over it emits these instructions. -/
def Emits (text : String) (is : List Instruction) : Prop :=
  ∃ pairs stop, Builds (.rule .expression) (.start text) stop pairs ∧ emitted text pairs = some is

/-- The grammar builds a tree of the texts that are accepted. -/
lemma exists_builds_iff_parse :
    (∃ pairs stop, Builds (.rule .expression) (.start text) stop pairs) ↔
      ∃ e, Regex.parse text = .ok e := by
  rw [Regex.exists_parse_iff_scan, ← exists_runs_iff_scan]
  constructor
  · rintro ⟨pairs, ⟨y, k⟩, h⟩
    exact ⟨y, (exists_builds_iff 0 .empty).1 ⟨k, pairs, h⟩⟩
  · rintro ⟨y, h⟩
    obtain ⟨k, pairs, hpairs⟩ := (exists_builds_iff 0 .empty).2 h
    exact ⟨pairs, _, hpairs⟩

/-- From the text of an expression its instructions are emitted. -/
lemma emits_instructions (he : e.WellFormed) : Emits e.render e.instructions := by
  have hstops : Stops [] := fun d hd => by cases hd
  have htext : e.render.toList = [] ++ (e.chars ++ []) := by
    rw [Regex.toList_render, List.append_nil, List.nil_append]
  obtain ⟨pair, hpair, -, hmakes⟩ :=
    (readsAs_of_wellFormed he).1.close htext (hstops.operandsEnd _) (hstops.fails _)
  have hstart : Position.behind [] (e.chars ++ []) = .start e.render := by
    rw [Position.start, Regex.toList_render, List.append_nil]
    rfl
  rw [hstart] at hpair
  refine ⟨_, _, .rule (.seq .first (.seq hpair (.rule .last))), ?_⟩
  have hmade : (Emit.chain e.render .union pair).run [] = some (e.instructions.length, e.instructions) :=
    hmakes []
  simp [emitted, Pair.inner, hmade]

lemma emits_iff : Emits text is ↔ Regex.listing text = .ok is := by
  have hemits (e : Regex) (hparse : Regex.parse text = .ok e) : Emits text e.instructions := by
    rw [← Regex.render_of_parse hparse]
    exact emits_instructions (Regex.wellFormed_of_parse hparse)
  rw [Regex.listing_eq_ok_iff]
  constructor
  · rintro ⟨pairs, stop, hbuilds, hemitted⟩
    obtain ⟨e, hparse⟩ := exists_builds_iff_parse.1 ⟨pairs, stop, hbuilds⟩
    -- there is no other tree from which other instructions could come
    obtain ⟨others, stop', hothers, hinstructions⟩ := hemits e hparse
    obtain ⟨-, rfl⟩ := hbuilds.unique hothers
    exact ⟨e, hparse, Option.some.inj (hinstructions.symm.trans hemitted)⟩
  · rintro ⟨e, hparse, rfl⟩
    exact hemits e hparse

/-- **Reading undoes writing, and writing undoes reading.** From the text of every well-formed expression the
list of its parts is emitted.  The walk breaks off on no tree of the grammar, and the last instruction that is
emitted from a text gives back a well-formed expression with exactly this text.  What is emitted is what the
reader lists. -/
theorem emission_inverse_render :
    (∀ e : Regex, e.WellFormed → ∃ is, Emits e.render is ∧ Regex.Lists e is) ∧
      (∀ text pairs stop, Builds (.rule .expression) (.start text) stop pairs →
        ∃ is, emitted text pairs = some is) ∧
      (∀ text is, Emits text is → ∃ e, Regex.readBack? is = some e ∧ e.WellFormed ∧ e.render = text) ∧
      ∀ text is, Emits text is ↔ Regex.listing text = .ok is := by
  refine ⟨fun e he => ⟨e.instructions, emits_instructions he, Regex.lists_instructions e⟩, ?_, ?_,
    fun text is => emits_iff⟩
  · intro text pairs stop hbuilds
    obtain ⟨e, hparse⟩ := exists_builds_iff_parse.1 ⟨pairs, stop, hbuilds⟩
    obtain ⟨others, stop', hothers, hemitted⟩ := emits_iff.2 (Regex.listing_eq_ok_iff.2 ⟨e, hparse, rfl⟩)
    obtain ⟨-, rfl⟩ := hbuilds.unique hothers
    exact ⟨_, hemitted⟩
  · intro text is hemits
    obtain ⟨e, hparse, rfl⟩ := Regex.listing_eq_ok_iff.1 (emits_iff.1 hemits)
    exact ⟨e, Regex.readBack?_instructions e, Regex.wellFormed_of_parse hparse,
      Regex.render_of_parse hparse⟩

/-- A group with a character of two bytes, a repetition and an empty alternative. -/
def sample : Regex :=
  .union (.concat (.group (.concat (.symbol 'a') (.symbol 'é'))) (.iterate (.symbol 'a'))) .epsilon

theorem emission_inverse_render_sample :
    (∃ is, Emits "(aé)a*| " is ∧ Regex.Lists sample is) ∧
      (∀ pairs stop, Builds (.rule .expression) (.start "(aé)a*| ") stop pairs →
        ∃ is, emitted "(aé)a*| " pairs = some is) ∧
      (∀ is, Emits "(aé)a*| " is →
        ∃ e, Regex.readBack? is = some e ∧ e.WellFormed ∧ e.render = "(aé)a*| ") ∧
      ∀ is, Emits "(aé)a*| " is ↔ Regex.listing "(aé)a*| " = .ok is := by
  have hsample : sample.WellFormed := by
    simp [sample, Regex.WellFormed, Regex.rank, isReserved]
  obtain ⟨hlists, hwalk, hback, hlisting⟩ := emission_inverse_render
  exact ⟨hlists sample hsample, hwalk _, hback _, hlisting _⟩

end Grammar

end FiniteAutomata
