import FiniteAutomata.Proofs.ExpressionStore.Keys
import FiniteAutomata.Proofs.ExpressionStore.Sound

/-!
# Stores after any calls

A store can be asked for expressions in any order.  The operands need not exist, the symbols may be too
long, and the texts may have nothing to do with the expressions; a call that fails changes nothing.
Whatever the calls were, the lists and tables of the store agree with each other, and every entry accepts
the words that its key describes from the entries before it.  A misleading text can only make an
expression refer to another entry, never change one.  Later calls add to a store and leave all that
is there as it is.

* `after` — the store after calls.
* `Shape.language`, `wordsOf` — the words that a key describes, and those that an entry accepts.
* `Consistent`, `Extends` — what holds of a store, and of a store and a later one.
* `Sound.wordsOf_eq_language`, `extends_attempt` — the two steps behind the main statement.
* **`consistent_after`** — every store is consistent after any calls, and further calls extend it.
-/

namespace FiniteAutomata

open Computability

/-! ## What a key describes -/

namespace Shape

/-- The numbers of the entries that the entry is made from. -/
def operands : Shape → List Nat
  | symbol _ => []
  | concat left right => [left, right]
  | union left right => [left, right]
  | iterate operand => [operand]

/-- The words that a shape describes, `words i` being those of the entry with the number `i`. -/
def language (words : Nat → Language Char) : Shape → Language Char
  | symbol s => {s.toList}
  | concat left right => words left * words right
  | union left right => words left + words right
  | iterate operand => (words operand)∗

variable {shape : Shape} {earlier : List Entry} {make : LabelSupply → Automaton × LabelSupply}

lemma Constructs.lt_length (h : shape.Constructs earlier make) {i : Nat} (hi : i ∈ shape.operands) :
    i < earlier.length := by
  cases h with
  | symbol hs => cases hi
  | concat hleft hright =>
      rcases List.mem_pair.1 hi with rfl | rfl
      · exact (List.getElem?_eq_some_iff.1 hleft).1
      · exact (List.getElem?_eq_some_iff.1 hright).1
  | union hleft hright =>
      rcases List.mem_pair.1 hi with rfl | rfl
      · exact (List.getElem?_eq_some_iff.1 hleft).1
      · exact (List.getElem?_eq_some_iff.1 hright).1
  | iterate hoperand =>
      obtain rfl := List.mem_singleton.1 hi
      exact (List.getElem?_eq_some_iff.1 hoperand).1

/-- An automaton that is made for a shape accepts the words that the shape describes. -/
lemma Constructs.language_eq {words : Nat → Language Char} (h : shape.Constructs earlier make)
    (hwords : ∀ i entry, earlier[i]? = some entry → words i = entry.automaton.language)
    (supply : LabelSupply) : (make supply).1.language = shape.language words := by
  cases h with
  | symbol hs =>
      ext w
      exact Automaton.mem_language_ofSymbol.trans (Automaton.reads_iff_eq_toList hs)
  | concat hleft hright =>
      rw [Automaton.language_concat, language, hwords _ _ hleft, hwords _ _ hright]
  | union hleft hright =>
      rw [Automaton.language_union, language, hwords _ _ hleft, hwords _ _ hright]
  | iterate hoperand => rw [Automaton.language_iterate, language, hwords _ _ hoperand]

end Shape

namespace ExpressionStore

variable {store t u : ExpressionStore} {text : Option String} {shape : Shape} {entry : Entry}
  {make : LabelSupply → Automaton × LabelSupply} {call : Instruction} {k n : Nat}

/-- The words that the automaton of an entry accepts. -/
def wordsOf (store : ExpressionStore) (k : Nat) : Language Char :=
  {w | ∃ entry, store.entries[k]? = some entry ∧
    entry.automaton.accepts (String.ofList w) = true}

lemma wordsOf_eq (hentry : store.entries[k]? = some entry) :
    store.wordsOf k = entry.automaton.language := by
  ext w
  have haccepts : entry.automaton.accepts (String.ofList w) = true ↔
      w ∈ entry.automaton.language := by
    rw [Automaton.accepts_iff_mem_language, String.toList_ofList]
  rw [← haccepts]
  constructor
  · rintro ⟨other, hother, hw⟩
    rw [hentry] at hother
    rwa [Option.some.inj hother]
  · exact fun hw => ⟨entry, hentry, hw⟩

/-- **An entry accepts the words that its shape describes** from those of earlier entries. -/
theorem Sound.wordsOf_eq_language (h : store.Sound) (hentry : store.entries[k]? = some entry) :
    (∀ i ∈ entry.shape.operands, i < k) ∧
      store.wordsOf k = entry.shape.language store.wordsOf := by
  obtain ⟨make, supply, hconstructs, hautomaton⟩ := h.made.exists_constructs hentry
  constructor
  · intro i hi
    exact lt_of_lt_of_le (hconstructs.lt_length hi) (List.length_take_le k store.entries)
  · rw [wordsOf_eq hentry, hautomaton]
    refine hconstructs.language_eq (fun i earlier hearlier => wordsOf_eq ?_) supply
    exact getElem?_mono (List.take_prefix k store.entries) hearlier

/-! ## What holds of a store -/

/-- The lists and tables of a store agree with each other, and the keys with the automata. -/
structure Consistent (store : ExpressionStore) : Prop where
  /-- Every expression refers to an entry. -/
  expressions : ∀ k ∈ store.expressions, k < store.entries.length
  /-- There are as many keys as entries, and no two are the same. -/
  keys : store.keys.length = store.entries.length ∧ store.keys.Nodup
  /-- The table of keys leads from every key to its number, and from nothing else anywhere. -/
  numbers : ∀ (key : String) (k : Nat),
    store.numbers.get? key = some k ↔ store.keys[k]? = some key
  /-- Every text leads to an entry. -/
  texts : ∀ (text : String) (k : Nat), store.texts.get? text = some k → k < store.entries.length
  /-- Every key is the key of one shape, the operands of which are earlier entries, and the entry
  accepts the words that the shape describes. -/
  words : ∀ (k : Nat) (key : String), store.keys[k]? = some key →
    ∃ shape : Shape, (∀ other : Shape, other.render = key ↔ other = shape) ∧
      (∀ i ∈ shape.operands, i < k) ∧ store.wordsOf k = shape.language store.wordsOf
  /-- The automaton of an operand is there whenever the operand is an expression. -/
  operands : ∀ n k, store.entryIndex? n = some k →
    ∃ entry, store.entries[k]? = some entry ∧ store.resolve n = .ok (k, entry.automaton)

/-- A list is without repetitions if a table finds each of its members under one number. -/
lemma nodup_of_table {keys : List String} {table : String → Option Nat}
    (h : ∀ key k, table key = some k ↔ keys[k]? = some key) : keys.Nodup := by
  rw [List.nodup_iff_injective_getElem]
  intro i j hij
  have hi : table keys[i] = some i.val := (h _ _).2 (List.getElem?_eq_getElem i.isLt)
  have hj : table keys[j] = some j.val := (h _ _).2 (List.getElem?_eq_getElem j.isLt)
  rw [show keys[i] = keys[j] from hij, hj] at hi
  exact Fin.ext (Option.some.inj hi).symm

lemma Sound.consistent (h : store.Sound) : store.Consistent where
  expressions := h.expressions
  keys := ⟨length_keys, nodup_of_table h.numbers⟩
  numbers := h.numbers
  texts := h.texts
  words k key hkey := by
    rw [keys, List.getElem?_map, Option.map_eq_some_iff] at hkey
    obtain ⟨entry, hentry, rfl⟩ := hkey
    obtain ⟨hoperands, hwords⟩ := h.wordsOf_eq_language hentry
    exact ⟨entry.shape, fun other => Shape.render_injective.eq_iff, hoperands, hwords⟩
  operands n k hindex := by
    have hentry := List.getElem?_eq_getElem (h.lt_length hindex)
    exact ⟨_, hentry, resolve_eq_ok_iff.2 ⟨_, entry?_eq_some_iff.2 ⟨hindex, hentry⟩, rfl⟩⟩

/-! ## What later calls keep -/

/-- All that is in a store is in a later one, at the same place. -/
structure Extends (store t : ExpressionStore) : Prop where
  expressions : store.expressions <+: t.expressions
  entries : store.entries <+: t.entries
  keys : store.keys <+: t.keys
  texts : ∀ (text : String) (k : Nat), store.texts.get? text = some k → t.texts.get? text = some k

namespace Extends

lemma refl (store : ExpressionStore) : store.Extends store where
  expressions := List.prefix_refl _
  entries := List.prefix_refl _
  keys := List.prefix_refl _
  texts _ _ h := h

lemma trans (h : store.Extends t) (h' : t.Extends u) : store.Extends u where
  expressions := h.expressions.trans h'.expressions
  entries := h.entries.trans h'.entries
  keys := h.keys.trans h'.keys
  texts text k hk := h'.texts text k (h.texts text k hk)

end Extends

lemma extends_addExpression : store.Extends (store.addExpression text k) where
  expressions := List.prefix_append _ _
  entries := List.prefix_refl _
  keys := List.prefix_refl _
  texts x i hi := by
    cases text with
    | none => exact hi
    | some text =>
        change (store.texts.insertIfNew text k).get? x = some i
        rw [SortedMap.get?_insertIfNew]
        split_ifs with hx
        · rw [← hx, hi, Option.getD_some]
        · exact hi

lemma extends_addEntry : store.Extends (store.addEntry shape make) where
  expressions := List.prefix_refl _
  entries := List.prefix_append _ _
  keys := by
    rw [keys_addEntry]
    exact List.prefix_append _ _
  texts _ _ h := h

lemma extends_addShared : store.Extends (store.addShared text shape make) := by
  rw [addShared]
  cases store.known? text shape with
  | some k => exact extends_addExpression
  | none => exact extends_addEntry.trans extends_addExpression

/-- **A call that succeeds extends the store.** -/
theorem extends_of_apply (h : store.apply call = .ok t) : store.Extends t := by
  obtain ⟨shape, make, -, rfl⟩ | ⟨k, -, rfl⟩ := apply_cases h
  · exact extends_addShared
  · exact extends_addExpression

/-! ## Any calls -/

/-- The store after a call; one that fails leaves it as it is. -/
def attempt (store : ExpressionStore) (call : Instruction) : ExpressionStore :=
  match store.apply call with
  | .ok next => next
  | .error _ => store

/-- The store after calls, any of which may have failed. -/
def after (calls : List Instruction) : ExpressionStore := calls.foldl attempt empty

lemma Sound.attempt (h : store.Sound) : (store.attempt call).Sound := by
  rw [ExpressionStore.attempt]
  cases happly : store.apply call with
  | ok next => exact h.apply happly
  | error e => exact h

lemma extends_attempt : store.Extends (store.attempt call) := by
  rw [attempt]
  cases happly : store.apply call with
  | ok next => exact extends_of_apply happly
  | error e => exact .refl store

lemma after_concat (calls : List Instruction) (call : Instruction) :
    after (calls ++ [call]) = (after calls).attempt call := List.foldl_concat _ _ _ _

lemma sound_after (calls : List Instruction) : (after calls).Sound := by
  induction calls using List.reverseRecOn with
  | nil => exact sound_empty
  | append_singleton calls call ih =>
      rw [after_concat]
      exact ih.attempt

lemma extends_after (calls more : List Instruction) :
    (after calls).Extends (after (calls ++ more)) := by
  induction more using List.reverseRecOn with
  | nil =>
      rw [List.append_nil]
      exact .refl _
  | append_singleton more call ih =>
      rw [← List.append_assoc, after_concat]
      exact ih.trans extends_attempt

/-- **After any calls a store is consistent, and further calls extend it**, whatever the operands and
the texts of the calls are and whichever of them fail. -/
theorem consistent_after (calls : List Instruction) :
    (after calls).Consistent ∧
      ∀ more : List Instruction, (after calls).Extends (after (calls ++ more)) :=
  ⟨(sound_after calls).consistent, extends_after calls⟩

end ExpressionStore

end FiniteAutomata
