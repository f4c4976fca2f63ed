import FiniteAutomata.ExpressionStore.OfText
import FiniteAutomata.Proofs.ExpressionStore.Language
import FiniteAutomata.Proofs.ExpressionStore.Sharing
import FiniteAutomata.Proofs.Instruction.Reading
import Mathlib.Data.List.Find

/-!
# Instructions on lines

An input of instructions is a program without loops: every line makes one expression, from the lines
before it.  Lines, instructions and expressions bear the same numbers, since no line is passed over and
every instruction adds one expression, whether or not it shares its entry with others.  So a program can
be built exactly if all lines refer to lines before them, the error names the first reference that does
not, and the expression of a line has the words that the lines say.

* `readable_of_parseOperation`, `exists_of_readAll` — what the reader yields.
* `Sound.apply_eq_error_iff` — when an instruction fails.
* `RefersBack`, `MissesAt`, `buildAll_cases` — programs that can be built, and the place where the
  others fail.
* `lineLanguage`, `exists_automaton?_of_buildAll` — the words of a line, by recursion over the lines.
* **`buildAll_of_readAll`** — from an input to the expressions of its lines.
-/

namespace FiniteAutomata

open Computability

/-! ## What the reader yields -/

/-- What can stand on a line: a symbol of one character or none, and operands counted from one. -/
def Operation.Readable : Operation → Prop
  | symbol s => s.length ≤ 1
  | concat left right | union left right => left ≠ 0 ∧ right ≠ 0
  | iterate operand | identity operand => operand ≠ 0

namespace Instruction

variable {line : Line} {lines : List Line} {operation : Operation} {program : List Instruction}
  {input : Input}

/-- **No line holds a long symbol or an operand that is zero.** -/
theorem readable_of_parseOperation (h : parseOperation line = .ok operation) :
    operation.Readable := by
  rcases parseOperation_eq_ok_iff.1 h with
    - | ⟨-, hsymbol⟩ | @⟨_, operands, numbers, _, -, hmeans, hnumbers⟩
  · exact Nat.zero_le 1
  · simp [Operation.Readable, hsymbol]
  · have hpos : ∀ n ∈ numbers, n ≠ 0 := by
      intro n hn
      obtain ⟨field, -, hindex⟩ := exists_of_mem_right hnumbers hn
      exact hindex.2.1.ne'
    cases hmeans <;> simpa [Operation.Readable] using hpos

/-- **Every line holds one instruction**, and all of them are read. -/
theorem exists_of_readAll (h : readAll input = .ok program) :
    program.length = input.lines.length ∧ ∀ k line, input.lines[k]? = some line →
      ∃ operation, parseOperation ⟨k + 1, line⟩ = .ok operation ∧
        program[k]? = some ⟨operation, none⟩ := by
  have hlines := (readAll_eq_ok_iff.1 h).2
  refine ⟨by rw [← hlines.length_eq, Input.length_numbered], fun k line hline => ?_⟩
  have hnumbered : input.numbered[k]? = some ⟨k + 1, line⟩ := by
    rw [Input.getElem?_numbered, hline, Option.map_some]
  obtain ⟨i, hi, operation, hoperation, rfl⟩ := getElem?_of_forall₂ hlines hnumbered
  exact ⟨operation, hoperation, hi⟩

lemma readable_of_readAll (h : readAll input = .ok program) {i : Instruction} (hi : i ∈ program) :
    i.operation.Readable ∧ i.text = none := by
  obtain ⟨line, -, operation, hoperation, rfl⟩ :=
    exists_of_mem_right (readAll_eq_ok_iff.1 h).2 hi
  exact ⟨readable_of_parseOperation hoperation, rfl⟩

end Instruction

/-! ## Instructions that fail -/

/-- The operands that are not the number of one of so many expressions. -/
def isOutside (available n : Nat) : Bool := n == 0 || available < n

namespace ExpressionStore

variable {store t : ExpressionStore} {instruction : Instruction} {error : BuildError} {n : Nat}

lemma Sound.resolve_cases (h : store.Sound) (n : Nat) :
    (isOutside store.expressions.length n = false ∧ ∃ operand, store.resolve n = .ok operand) ∨
      isOutside store.expressions.length n = true ∧
        store.resolve n = .error (.noExpression n store.expressions.length) := by
  cases hindex : store.entryIndex? n with
  | none =>
      refine .inr ⟨?_, by rw [resolve, entry?, hindex]; rfl⟩
      cases n with
      | zero => rfl
      | succ n =>
          have hn : store.expressions.length ≤ n := List.getElem?_eq_none_iff.1 hindex
          simp [isOutside]
          omega
  | some k =>
      refine .inl ⟨?_, ?_⟩
      · cases n with
        | zero => cases hindex
        | succ n =>
            have hn : n < store.expressions.length := (List.getElem?_eq_some_iff.1 hindex).1
            simp [isOutside]
            omega
      · have hentry := List.getElem?_eq_getElem (h.lt_length hindex)
        exact ⟨_, resolve_eq_ok_iff.2 ⟨_, entry?_eq_some_iff.2 ⟨hindex, hentry⟩, rfl⟩⟩

/-- **An instruction fails if its symbol is too long or an operand is no expression**, and the first
such operand is named. -/
theorem Sound.apply_eq_error_iff (h : store.Sound) :
    store.apply instruction = .error error ↔
      (∃ s, instruction.operation = .symbol s ∧ 1 < s.length ∧ error = .longSymbol s) ∨
        ∃ n, instruction.operation.operands.find? (isOutside store.expressions.length) = some n ∧
          error = .noExpression n store.expressions.length := by
  obtain ⟨operation, text⟩ := instruction
  cases operation with
  | symbol s =>
      by_cases hs : s.length ≤ 1
      · simp [ExpressionStore.apply, Operation.operands, hs]
      · simp [ExpressionStore.apply, Operation.operands, hs, Nat.lt_of_not_le hs, eq_comm]
  | concat left right | union left right =>
      rcases h.resolve_cases left with ⟨hl, A, hleft⟩ | ⟨hl, hleft⟩ <;>
        rcases h.resolve_cases right with ⟨hr, B, hright⟩ | ⟨hr, hright⟩ <;>
        simp [ExpressionStore.apply, Operation.operands, hl, hleft, hr, hright, bind, Except.bind,
          pure, Except.pure, @eq_comm _ _ error]
  | iterate operand | identity operand =>
      rcases h.resolve_cases operand with ⟨ho, A, hoperand⟩ | ⟨ho, hoperand⟩ <;>
        simp [ExpressionStore.apply, Operation.operands, ho, hoperand, bind, Except.bind, pure,
          Except.pure, @eq_comm _ _ error]

end ExpressionStore

/-! ## Programs that can be built -/

namespace Instruction

/-- The instruction behind `k` others, if there is one, refers to these only. -/
def RefersBack (program : List Instruction) (k : Nat) : Prop :=
  ∀ i, program[k]? = some i → ∀ n ∈ i.operation.operands, n ≤ k

/-- Behind `k` instructions that refer to what is made before them stands one that does not, and `n` is
the first of its operands that is not made before. -/
def MissesAt (program : List Instruction) (k n : Nat) : Prop :=
  (∃ i, program[k]? = some i ∧ i.operation.operands.find? (k < ·) = some n) ∧
    ∀ j < k, RefersBack program j

variable {program : List Instruction} {i : Instruction} {j k m n : Nat}

lemma refersBack_of_length_le (h : program.length ≤ k) : RefersBack program k := by
  intro i hi
  rw [List.getElem?_eq_none h] at hi
  cases hi

lemma MissesAt.not_refersBack (h : MissesAt program k n) : ¬ RefersBack program k := by
  intro hback
  obtain ⟨⟨i, hi, hfind⟩, -⟩ := h
  have hk : k < n := by simpa using List.find?_some hfind
  exact absurd (hback i hi n (List.mem_of_find?_eq_some hfind)) (Nat.not_le.2 hk)

/-- There is at most one place where a program fails. -/
lemma MissesAt.unique (h : MissesAt program k n) (h' : MissesAt program j m) : j = k ∧ m = n := by
  have hle : ¬ j < k := fun hlt => h'.not_refersBack (h.2 j hlt)
  have hge : ¬ k < j := fun hlt => h.not_refersBack (h'.2 k hlt)
  obtain rfl : j = k := by omega
  obtain ⟨⟨i, hi, hfind⟩, -⟩ := h
  obtain ⟨⟨i', hi', hfind'⟩, -⟩ := h'
  obtain rfl := Option.some.inj (hi.symm.trans hi')
  exact ⟨rfl, Option.some.inj (hfind'.symm.trans hfind)⟩

/-- Instructions that come later change nothing. -/
lemma refersBack_concat (hk : k < program.length) :
    RefersBack (program ++ [i]) k ↔ RefersBack program k := by
  rw [RefersBack, RefersBack, List.getElem?_append_left hk]

lemma refersBack_concat_length :
    RefersBack (program ++ [i]) program.length ↔ ∀ n ∈ i.operation.operands, n ≤ program.length := by
  simp [RefersBack]

lemma MissesAt.concat (h : MissesAt program k n) : MissesAt (program ++ [i]) k n := by
  obtain ⟨⟨i, hi, hfind⟩, hbefore⟩ := h
  have hk : k < program.length := (List.getElem?_eq_some_iff.1 hi).1
  refine ⟨⟨i, ?_, hfind⟩, fun j hj => ?_⟩
  · rw [List.getElem?_append_left hk, hi]
  · exact (refersBack_concat (hj.trans hk)).2 (hbefore j hj)

end Instruction

namespace ExpressionStore

open Instruction

variable {program : List Instruction} {store : ExpressionStore} {i : Instruction}

/-- Operands on lines are counted from one, so they are outside only if they are too large. -/
lemma find?_isOutside {operation : Operation} (h : operation.Readable) (available : Nat) :
    operation.operands.find? (isOutside available) = operation.operands.find? (available < ·) := by
  have hne : ∀ n ∈ operation.operands, n ≠ 0 := by
    cases operation <;> simp_all [Operation.operands, Operation.Readable]
  refine List.find?_congr fun n hn => ?_
  simp [isOutside, hne n hn]

/-- What is read from a line can be built, or its first operand that is too large is named. -/
lemma Sound.apply_cases_of_readable (h : store.Sound) (hreadable : i.operation.Readable) :
    ((∃ t, store.apply i = .ok t) ∧ ∀ n ∈ i.operation.operands, n ≤ store.expressions.length) ∨
      ∃ n, i.operation.operands.find? (store.expressions.length < ·) = some n ∧
        store.apply i = .error (.noExpression n store.expressions.length) := by
  have hfind := find?_isOutside hreadable store.expressions.length
  cases houtside : i.operation.operands.find? (store.expressions.length < ·) with
  | some n => exact .inr ⟨n, rfl, h.apply_eq_error_iff.2 (.inr ⟨n, hfind.trans houtside, rfl⟩)⟩
  | none =>
      refine .inl ⟨?_, by simpa using houtside⟩
      cases happly : store.apply i with
      | ok t => exact ⟨t, rfl⟩
      | error error =>
          rcases h.apply_eq_error_iff.1 happly with ⟨s, hs, hlong, -⟩ | ⟨n, hn, -⟩
          · rw [hs] at hreadable
            exact absurd hlong (Nat.not_lt.2 hreadable)
          · rw [hfind, houtside] at hn
            cases hn

lemma length_expressions_of_buildAll (h : buildAll program = .ok store) :
    store.expressions.length = program.length := by
  obtain ⟨added, hadded, hlength⟩ := expressions_of_foldlM h
  rw [hadded, ← hlength]
  rfl

lemma buildAll_concat (program : List Instruction) (i : Instruction) :
    buildAll (program ++ [i]) = buildAll program >>= fun store => store.apply i := by
  simp [buildAll, List.foldlM_append]

/-- **A program can be built, or it fails at the first reference to what is not made before.** -/
theorem buildAll_cases (h : ∀ i ∈ program, i.operation.Readable) :
    ((∃ store, buildAll program = .ok store) ∧ ∀ k, RefersBack program k) ∨
      ∃ k n, MissesAt program k n ∧ buildAll program = .error (.noExpression n k) := by
  induction program using List.reverseRecOn with
  | nil => exact .inl ⟨⟨empty, rfl⟩, fun k => refersBack_of_length_le (Nat.zero_le k)⟩
  | append_singleton program i ih =>
      simp only [List.forall_mem_append, List.forall_mem_singleton] at h
      rw [buildAll_concat]
      rcases ih h.1 with ⟨⟨store, hstore⟩, hback⟩ | ⟨k, n, hmiss, herror⟩
      · have hcases := (sound_of_buildAll hstore).apply_cases_of_readable h.2
        rw [length_expressions_of_buildAll hstore] at hcases
        rw [hstore]
        rcases hcases with ⟨⟨t, ht⟩, hle⟩ | ⟨n, hfind, herror⟩
        · refine .inl ⟨⟨t, ht⟩, fun k => ?_⟩
          rcases Nat.lt_trichotomy k program.length with hk | rfl | hk
          · exact (refersBack_concat hk).2 (hback k)
          · exact refersBack_concat_length.2 hle
          · exact refersBack_of_length_le (by simpa using Nat.succ_le_of_lt hk)
        · refine .inr ⟨program.length, n, ⟨⟨i, List.getElem?_concat_length, hfind⟩, fun j hj => ?_⟩,
            herror⟩
          exact (refersBack_concat hj).2 (hback j)
      · exact .inr ⟨k, n, hmiss.concat, by rw [herror]; rfl⟩

theorem exists_buildAll_iff (h : ∀ i ∈ program, i.operation.Readable) :
    (∃ store, buildAll program = .ok store) ↔ ∀ k, RefersBack program k := by
  rcases buildAll_cases h with ⟨hstore, hback⟩ | ⟨k, n, hmiss, herror⟩
  · exact iff_of_true hstore hback
  · refine iff_of_false ?_ fun hback => hmiss.not_refersBack (hback k)
    simp [herror]

theorem buildAll_eq_error_iff (h : ∀ i ∈ program, i.operation.Readable) {error : BuildError} :
    buildAll program = .error error ↔ ∃ k n, MissesAt program k n ∧ error = .noExpression n k := by
  rcases buildAll_cases h with ⟨⟨store, hstore⟩, hback⟩ | ⟨k, n, hmiss, herror⟩
  · rw [hstore]
    refine iff_of_false (fun heq => by cases heq) ?_
    rintro ⟨k, n, hmiss, -⟩
    exact hmiss.not_refersBack (hback k)
  · rw [herror]
    constructor
    · intro heq
      exact ⟨k, n, hmiss, (Except.error.inj heq).symm⟩
    · rintro ⟨j, m, hmiss', rfl⟩
      obtain ⟨rfl, rfl⟩ := hmiss.unique hmiss'
      rfl

end ExpressionStore

/-! ## The words of a line -/

/-- The words of an expression, from the words of the expressions that its operands name. -/
def Operation.language (words : Nat → Language Char) : Operation → Language Char
  | symbol s => {s.toList}
  | concat left right => words left * words right
  | union left right => words left + words right
  | iterate operand => (words operand)∗
  | identity operand => words operand

/-- The words of a line, by recursion over the lines.  A line that is not there has no words, and
neither has a line for those before it. -/
def Instruction.lineLanguage (program : List Instruction) : Nat → Language Char
  | 0 => 0
  | k + 1 =>
    match program[k]? with
    | some i => i.operation.language fun n => if n ≤ k then lineLanguage program n else 0
    | none => 0

lemma Operation.language_congr {words more : Nat → Language Char} {operation : Operation}
    (h : ∀ n ∈ operation.operands, words n = more n) :
    operation.language words = operation.language more := by
  cases operation <;> simp_all [Operation.operands, Operation.language]

/-- A tree has the words that its operation makes from the words of the trees before it. -/
lemma Regex.language_of_made? {built : List Regex} {operation : Operation} {e : Regex}
    {words : Nat → Language Char} (hmade : Regex.made? built operation = some e)
    (hwords : ∀ n x, Regex.numbered? built n = some x → x.language = words n) :
    e.language = operation.language words := by
  cases operation with
  | symbol s =>
      rw [Regex.made?] at hmade
      split at hmade
      next hs =>
        obtain rfl := Option.some.inj hmade
        rw [Operation.language, hs]
        rfl
      next c hs =>
        obtain rfl := Option.some.inj hmade
        rw [Operation.language, hs]
        rfl
      next => cases hmade
  | concat left right | union left right =>
      simp only [Regex.made?, Option.bind_eq_bind, Option.bind_eq_some_iff, Option.pure_def,
        Option.some.injEq] at hmade
      obtain ⟨l, hl, r, hr, rfl⟩ := hmade
      rw [Regex.language, hwords left l hl, hwords right r hr, Operation.language]
  | iterate operand | identity operand =>
      obtain ⟨x, hx, rfl⟩ := Option.map_eq_some_iff.1 hmade
      rw [Regex.language, hwords operand x hx, Operation.language]

namespace Instruction

variable {program : List Instruction} {i : Instruction} {k n : Nat}

/-- **The words of a line are made from the words of the lines it refers to.** -/
theorem lineLanguage_succ (hi : program[k]? = some i) (hback : RefersBack program k) :
    lineLanguage program (k + 1) = i.operation.language (lineLanguage program) := by
  rw [lineLanguage, hi]
  exact Operation.language_congr fun n hn => if_pos (hback i hi n hn)

/-- Lines that come later change nothing. -/
lemma lineLanguage_concat (hn : n ≤ program.length) :
    lineLanguage (program ++ [i]) n = lineLanguage program n := by
  induction n using Nat.strongRec with
  | ind n ih =>
      cases n with
      | zero => rw [lineLanguage, lineLanguage]
      | succ k =>
          have hbefore : ∀ n, (if n ≤ k then lineLanguage (program ++ [i]) n else 0) =
              if n ≤ k then lineLanguage program n else 0 := by
            intro n
            split_ifs with hle
            · exact ih n (by omega) (by omega)
            · rfl
          rw [lineLanguage, lineLanguage, List.getElem?_append_left hn]
          simp only [hbefore]

/-- The trees that a program makes have the words of their lines. -/
lemma language_of_madeBy? {all : List Regex} (h : Regex.madeBy? [] program = some all) :
    all.length = program.length ∧
      ∀ n x, Regex.numbered? all n = some x → x.language = lineLanguage program n := by
  induction program using List.reverseRecOn generalizing all with
  | nil =>
      obtain rfl := Option.some.inj h
      refine ⟨rfl, fun n x hx => ?_⟩
      cases n <;> cases hx
  | append_singleton program i ih =>
      rw [Regex.madeBy?_append, Option.bind_eq_some_iff] at h
      obtain ⟨before, hbefore, hlast⟩ := h
      rw [Regex.madeBy?_singleton, Option.map_eq_some_iff] at hlast
      obtain ⟨e, he, rfl⟩ := hlast
      obtain ⟨hlength, hwords⟩ := ih hbefore
      have hold : ∀ n x, Regex.numbered? before n = some x →
          n ≤ program.length ∧ x.language = lineLanguage (program ++ [i]) n := by
        intro n x hx
        have hn : n ≤ program.length := by
          cases n with
          | zero => exact Nat.zero_le _
          | succ k => exact hlength ▸ (List.getElem?_eq_some_iff.1 hx).1
        exact ⟨hn, by rw [hwords n x hx, lineLanguage_concat hn]⟩
      refine ⟨by simp [hlength], fun n x hx => ?_⟩
      cases n with
      | zero => cases hx
      | succ k =>
          rcases getElem?_concat_eq_some_iff.1 hx with hx | ⟨rfl, rfl⟩
          · exact (hold (k + 1) x hx).2
          · rw [lineLanguage, hlength, List.getElem?_concat_length]
            refine Regex.language_of_made? he fun n x hx => ?_
            obtain ⟨hn, hx⟩ := hold n x hx
            rw [hx, if_pos hn]

end Instruction

namespace ExpressionStore

open Instruction

variable {store : ExpressionStore} {program : List Instruction} {built trees : List Regex} {e : Regex}
  {n : Nat}

/-- The automaton of an expression has the language of its tree. -/
lemma Unfolded.exists_automaton? (h : store.Unfolded built trees) (hsound : store.Sound)
    (he : Regex.numbered? built n = some e) :
    ∃ A, store.automaton? n = some A ∧ A.language = e.language := by
  have htree := h.numbered?_eq n
  rw [he, Option.map_some, eq_comm, Option.bind_eq_some_iff] at htree
  obtain ⟨k, hindex, hk⟩ := htree
  obtain ⟨entry, hentry, -⟩ := h.mirrors.exists_entry hk
  refine ⟨entry.automaton, ?_, ?_⟩
  · rw [automaton?, entry?_eq_some_iff.2 ⟨hindex, hentry⟩]
    rfl
  · rw [hsound.language_eq h.mirrors hk hentry, Regex.language_plain]

/-- **The automaton of an expression accepts the words of its line.** -/
theorem exists_automaton?_of_buildAll (hbare : ∀ i ∈ program, i.text = none)
    (h : buildAll program = .ok store) {k : Nat} (hk : k < program.length) :
    ∃ A, store.automaton? (k + 1) = some A ∧
      ∀ word : String, A.accepts word = true ↔ word.toList ∈ lineLanguage program (k + 1) := by
  obtain ⟨built, trees, hbuilt, hunfolded⟩ := unfolded_empty.foldlM hbare h
  obtain ⟨hlength, hwords⟩ := language_of_madeBy? hbuilt
  have he : Regex.numbered? built (k + 1) = some built[k] := List.getElem?_eq_getElem (hlength ▸ hk)
  obtain ⟨A, hA, hlanguage⟩ := hunfolded.exists_automaton? (sound_of_buildAll h) he
  refine ⟨A, hA, fun word => ?_⟩
  rw [Automaton.accepts_iff_mem_language, hlanguage, hwords (k + 1) _ he]

/-- **From an input to the expressions of its lines.**  Every line holds one instruction.  They can be
built exactly if all of them refer to lines before them; otherwise the error names the first operand
that does not, and the number of lines before.  The automaton of a line then accepts the words that the
line makes from the words of the lines it refers to. -/
theorem buildAll_of_readAll {input : Input} (h : readAll input = .ok program) :
    (program.length = input.lines.length ∧
      ∀ k line, input.lines[k]? = some line → ∃ operation,
        parseOperation ⟨k + 1, line⟩ = .ok operation ∧ program[k]? = some ⟨operation, none⟩) ∧
    ((∃ store, buildAll program = .ok store) ↔ ∀ k, RefersBack program k) ∧
    (∀ error, buildAll program = .error error ↔
      ∃ k n, MissesAt program k n ∧ error = .noExpression n k) ∧
    ∀ store, buildAll program = .ok store → ∀ k i, program[k]? = some i →
      lineLanguage program (k + 1) = i.operation.language (lineLanguage program) ∧
        ∃ A, store.automaton? (k + 1) = some A ∧
          ∀ word : String, A.accepts word = true ↔ word.toList ∈ lineLanguage program (k + 1) := by
  have hreadable : ∀ i ∈ program, i.operation.Readable := fun i hi => (readable_of_readAll h hi).1
  have hbare : ∀ i ∈ program, i.text = none := fun i hi => (readable_of_readAll h hi).2
  refine ⟨exists_of_readAll h, exists_buildAll_iff hreadable,
    fun error => buildAll_eq_error_iff hreadable, fun store hstore k i hi => ?_⟩
  have hback := (exists_buildAll_iff hreadable).1 ⟨store, hstore⟩
  exact ⟨lineLanguage_succ hi (hback k),
    exists_automaton?_of_buildAll hbare hstore (List.getElem?_eq_some_iff.1 hi).1⟩

/-- A symbol, the empty word, both joined and repeated, the same again, and that twice in sequence. -/
def stacked : List Instruction :=
  [.symbol "a", .symbol epsilon, .union 1 2, .iterate 3, .identity 4, .concat 5 5].map (⟨·, none⟩)

theorem buildAll_of_readAll_stacked :
    readAll (.ofString "a\n\nU,1,2\nS,3\nD,4\nC,5,5\n") = .ok stacked ∧
      (∃ store, buildAll stacked = .ok store) ∧
      ∀ store, buildAll stacked = .ok store → ∀ k i, stacked[k]? = some i →
        lineLanguage stacked (k + 1) = i.operation.language (lineLanguage stacked) ∧
          ∃ A, store.automaton? (k + 1) = some A ∧
            ∀ word : String, A.accepts word = true ↔ word.toList ∈ lineLanguage stacked (k + 1) := by
  have hread : readAll (.ofString "a\n\nU,1,2\nS,3\nD,4\nC,5,5\n") = .ok stacked := rfl
  obtain ⟨-, -, -, hwords⟩ := buildAll_of_readAll hread
  exact ⟨hread, ⟨_, rfl⟩, hwords⟩

end ExpressionStore

end FiniteAutomata
