import FiniteAutomata.Proofs.ExpressionStore.Automata
import FiniteAutomata.Proofs.ExpressionStore.Programs

/-!
# Instructions carried out in place

`ExpressionStore.apply` makes a new store or fails, and where it fails there is no store that could have
been spoilt.  Whoever keeps a single store and changes it piece by piece has more to fear: an instruction
takes labels, lists an entry and an expression and fills in two tables, and if it failed between two of
these changes, only later expressions would show what is left of it.  Below an instruction is a program of
such changes, each of which stays whatever happens behind it.  Nothing is left of an instruction that
fails, since both operands are looked up before the first change.

* `Building`, `ExpressionStore.perform` — the programs, and the one for an instruction.
* **`perform_eq`** — a program makes all changes of the instruction or none.
* `Extends.automaton?_eq` — expressions keep their automata in larger stores.
* `Answers` — what a store has to say to an instruction.
* **`answers_performAll`** — a store answers like this after any instructions.
-/

namespace FiniteAutomata

/-- A program that looks at a store and changes it.  It may fail on the way, and what it has changed by
then stays changed. -/
abbrev Building (α : Type) := EStateM BuildError ExpressionStore α

namespace Building

/-! ## Single changes -/

/-- Looks up an operand. -/
def operand (index : Nat) : Building (Nat × Automaton) := do
  match (← get).resolve index with
  | .ok found => return found
  | .error error => throw error

/-- Makes an automaton with labels from the supply. -/
def make (automaton : LabelSupply → Automaton × LabelSupply) : Building Automaton := do
  let (made, supply) := automaton (← get).supply
  modify fun store => { store with supply := supply }
  return made

/-- Lists an entry and registers its key. -/
def enter (shape : Shape) (automaton : Automaton) : Building Nat := do
  let number := (← get).entries.length
  modify fun store => { store with entries := store.entries ++ [⟨shape, automaton⟩] }
  modify fun store => { store with numbers := store.numbers.insert shape.render number }
  return number

/-- Registers a text, unless it is known. -/
def register (text : Option String) (entry : Nat) : Building Unit :=
  match text with
  | some text => modify fun store => { store with texts := store.texts.insertIfNew text entry }
  | none => return

/-- Lists an expression; its number is the number of expressions then. -/
def list (text : Option String) (entry : Nat) : Building Nat := do
  register text entry
  modify fun store => { store with expressions := store.expressions ++ [entry] }
  return (← get).expressions.length

/-- Lists an expression, with an entry of its own unless one is known to serve for it. -/
def share (text : Option String) (shape : Shape) (automaton : LabelSupply → Automaton × LabelSupply) :
    Building Nat := do
  match (← get).known? text shape with
  | some entry => list text entry
  | none => list text (← enter shape (← make automaton))

end Building

namespace ExpressionStore

open Building

/-- Carries out an instruction and returns the number of its expression. -/
def perform (instruction : Instruction) : Building Nat :=
  let text := instruction.text.map Text.stripParentheses
  match instruction.operation with
  | .symbol symbol =>
    if symbol.length ≤ 1 then
      share text (.symbol symbol) fun supply => (Automaton.ofSymbol symbol, supply)
    else throw (.longSymbol symbol)
  | .concat left right => do
    let (i, A) ← operand left
    let (j, B) ← operand right
    share text (.concat i j) (A.concat B)
  | .union left right => do
    let (i, A) ← operand left
    let (j, B) ← operand right
    share text (.union i j) (A.union B)
  | .iterate index => do
    let (i, A) ← operand index
    share text (.iterate i) A.iterate
  | .identity index => do
    let (i, _) ← operand index
    list text i

/-- The store at the end of a program, whether or not it has failed. -/
def left {α : Type} : EStateM.Result BuildError ExpressionStore α → ExpressionStore
  | .ok _ store => store
  | .error _ store => store

/-- The store in which instructions have been carried out, any of which may have failed. -/
def performAll (calls : List Instruction) : ExpressionStore :=
  calls.foldl (fun store call => left (perform call store)) empty

variable {store t : ExpressionStore} {text : Option String} {shape : Shape} {A : Automaton}
  {make : LabelSupply → Automaton × LabelSupply} {call : Instruction} {k n : Nat}

/-! ## All changes or none -/

/-- The end of a program that makes all changes that lead to a store, or that fails before the first. -/
def allOrNothing (store : ExpressionStore) :
    Except BuildError ExpressionStore → EStateM.Result BuildError ExpressionStore Nat
  | .ok t => .ok (store.expressions.length + 1) t
  | .error error => .error error store

section Programs

variable {α β : Type} {x : Building α} {f : α → Building β} {a : α}

lemma get_eq : (get : Building ExpressionStore) store = .ok store store := rfl

lemma bind_eq_of_eq_ok (h : x store = .ok a t) : (x >>= f) store = f a t := by
  simp [bind, EStateM.bind, h]

end Programs

lemma list_eq :
    Building.list text k store = store.allOrNothing (.ok (store.addExpression text k)) := by
  have hlength : (store.expressions ++ [k]).length = store.expressions.length + 1 :=
    List.length_append
  rw [allOrNothing, ← hlength]
  cases text <;> rfl

lemma share_eq :
    share text shape make store = store.allOrNothing (.ok (store.addShared text shape make)) := by
  rw [share, bind_eq_of_eq_ok get_eq, addShared]
  cases store.known? text shape with
  | some entry => exact list_eq
  | none =>
      have hmake : Building.make make store =
          .ok (make store.supply).1 { store with supply := (make store.supply).2 } := rfl
      have henter : enter shape (make store.supply).1 { store with supply := (make store.supply).2 } =
          .ok store.entries.length (store.addEntry shape make) := rfl
      change (Building.make make >>= fun automaton => enter shape automaton >>=
        Building.list text) store = _
      rw [bind_eq_of_eq_ok hmake, bind_eq_of_eq_ok henter]
      exact list_eq

/-- Nothing has been changed yet when an operand is looked up. -/
lemma operand_bind_eq {f : Nat × Automaton → Building Nat}
    {g : Nat × Automaton → Except BuildError ExpressionStore}
    (h : ∀ found, f found store = store.allOrNothing (g found)) :
    (operand n >>= f) store = store.allOrNothing (store.resolve n >>= g) := by
  cases hfound : store.resolve n with
  | error error =>
      simp only [operand, bind, EStateM.bind, get_eq, hfound]
      rfl
  | ok found =>
      have hoperand : operand n store = .ok found store := by
        rw [operand, bind_eq_of_eq_ok get_eq, hfound]
        rfl
      rw [bind_eq_of_eq_ok hoperand]
      exact h found

/-- **A program makes all changes of its instruction or none.** -/
theorem perform_eq : perform call store = store.allOrNothing (store.apply call) := by
  obtain ⟨operation, text⟩ := call
  cases operation with
  | symbol s =>
      by_cases hs : s.length ≤ 1
      · simp only [perform, ExpressionStore.apply, if_pos hs]
        exact share_eq
      · simp only [perform, ExpressionStore.apply, if_neg hs]
        rfl
  | concat left right | union left right =>
      exact operand_bind_eq fun A => operand_bind_eq fun B => share_eq
  | iterate index => exact operand_bind_eq fun A => share_eq
  | identity index => exact operand_bind_eq fun A => list_eq

lemma left_perform : left (perform call store) = store.attempt call := by
  rw [perform_eq, attempt]
  cases store.apply call <;> rfl

/-- Instructions that fail leave nothing behind, so the store is the same as if each had been made or
not made as a whole. -/
lemma performAll_eq_after (calls : List Instruction) : performAll calls = after calls := by
  simp only [performAll, left_perform]
  rfl

/-! ## Earlier expressions -/

/-- An expression of a store has the same automaton in a larger one. -/
lemma Extends.automaton?_eq (h : store.Extends t) (hsound : store.Sound)
    (hk : k ≤ store.expressions.length) : t.automaton? k = store.automaton? k := by
  cases k with
  | zero => rfl
  | succ k =>
      obtain ⟨A, hA⟩ := hsound.exists_automaton? hk
      have hmono : t.automaton? (k + 1) = some A := by
        rw [automaton?_eq_bind, Option.bind_eq_some_iff] at hA ⊢
        obtain ⟨i, hi, hentry⟩ := hA
        exact ⟨i, getElem?_mono h.expressions hi, getElem?_mono (h.entries.map _) hentry⟩
      rw [hmono, hA]

/-! ## Answers -/

/-- What a store has to say to an instruction. -/
structure Answers (store : ExpressionStore) (call : Instruction) : Prop where
  /-- The instruction fails exactly if its symbol is too long or an operand is no expression. -/
  fails : (∃ error t, perform call store = .error error t) ↔
    (∃ s, call.operation = .symbol s ∧ 1 < s.length) ∨
      ∃ n ∈ call.operation.operands, n = 0 ∨ store.expressions.length < n
  /-- It fails for the symbol or for the first such operand, and the store is what it was. -/
  refused : ∀ error t, perform call store = .error error t → t = store ∧
    ((∃ s, call.operation = .symbol s ∧ error = .longSymbol s) ∨
      ∃ n, call.operation.operands.find? (isOutside store.expressions.length) = some n ∧
        error = .noExpression n store.expressions.length)
  /-- Otherwise it returns the number of the new expression, which has an automaton, and all earlier
  expressions have the automata that they had. -/
  built : ∀ n t, perform call store = .ok n t → n = store.expressions.length + 1 ∧
    t.expressions.length = n ∧ (∃ A, t.automaton? n = some A) ∧
    ∀ k ≤ store.expressions.length, t.automaton? k = store.automaton? k

lemma allOrNothing_eq_error_iff {result : Except BuildError ExpressionStore} {error : BuildError} :
    store.allOrNothing result = .error error t ↔ result = .error error ∧ t = store := by
  cases result with
  | error e => simp [allOrNothing, eq_comm]
  | ok u => simp [allOrNothing]

lemma allOrNothing_eq_ok_iff {result : Except BuildError ExpressionStore} :
    store.allOrNothing result = .ok n t ↔ result = .ok t ∧ n = store.expressions.length + 1 := by
  cases result with
  | error e => simp [allOrNothing]
  | ok u => simp [allOrNothing, eq_comm, and_comm]

lemma exists_find?_isOutside_iff {operation : Operation} {available : Nat} :
    (∃ n, operation.operands.find? (isOutside available) = some n) ↔
      ∃ n ∈ operation.operands, n = 0 ∨ available < n := by
  rw [← Option.isSome_iff_exists, List.find?_isSome]
  simp [isOutside]

lemma Sound.answers (h : store.Sound) (call : Instruction) : store.Answers call where
  fails := by
    simp only [perform_eq, allOrNothing_eq_error_iff, h.apply_eq_error_iff, exists_and_left,
      exists_eq, and_true]
    rw [← exists_find?_isOutside_iff]
    constructor
    · rintro ⟨error, ⟨s, hs, hlong, -⟩ | ⟨n, hn, -⟩⟩
      · exact .inl ⟨s, hs, hlong⟩
      · exact .inr ⟨n, hn⟩
    · rintro (⟨s, hs, hlong⟩ | ⟨n, hn⟩)
      · exact ⟨.longSymbol s, .inl ⟨s, hs, hlong, rfl⟩⟩
      · exact ⟨.noExpression n store.expressions.length, .inr ⟨n, hn, rfl⟩⟩
  refused error t herror := by
    rw [perform_eq, allOrNothing_eq_error_iff, h.apply_eq_error_iff] at herror
    obtain ⟨⟨s, hs, -, he⟩ | hoperand, ht⟩ := herror
    · exact ⟨ht, .inl ⟨s, hs, he⟩⟩
    · exact ⟨ht, .inr hoperand⟩
  built n t hok := by
    rw [perform_eq, allOrNothing_eq_ok_iff] at hok
    obtain ⟨happly, rfl⟩ := hok
    obtain ⟨entry, hentry⟩ := expressions_of_apply happly
    have hlength : t.expressions.length = store.expressions.length + 1 := by
      rw [hentry, List.length_append, List.length_singleton]
    refine ⟨rfl, hlength, (h.apply happly).exists_automaton? (by omega), fun k hk => ?_⟩
    exact (extends_of_apply happly).automaton?_eq h hk

/-- **After any instructions a store answers an instruction as it should**: it refuses those that refer to
nothing, for the first reason that there is, and is what it was; and it carries out all others without
touching what is there.  The store is the one that instructions lead to which are made as a whole, and so
is what comes of the next one. -/
theorem answers_performAll (calls : List Instruction) (call : Instruction) :
    performAll calls = after calls ∧
      perform call (performAll calls) = (after calls).allOrNothing ((after calls).apply call) ∧
        (performAll calls).Answers call := by
  have hafter := performAll_eq_after calls
  refine ⟨hafter, ?_, ?_⟩
  · rw [hafter, perform_eq]
  · rw [hafter]
    exact (sound_after calls).answers call

end ExpressionStore

end FiniteAutomata
