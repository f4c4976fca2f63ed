import FiniteAutomata.ExpressionStore
import FiniteAutomata.Proofs.Automaton.Languages

/-!
# What a store holds

A store is sound if its entries have been made one behind the other, each in a way of its own, and if
its numbers lead to entries.  An instruction changes a store in one of two ways: it adds an expression
for a shape, with or without an entry of its own, or it adds an expression for an entry that is there
(`apply_cases`).  Both keep a store sound, whatever the texts are.  What holds of the automata of all
entries follows from the way in which entries are made.

* `Shape.Constructs`, `Made` — how an entry is made from the entries before it, and all of them.
* `Sound` — the invariant.
* `Sound.apply`, `sound_of_buildAll` — instructions keep it, hence every store that is built has it.
-/

namespace FiniteAutomata

/-! ## Shapes -/

/-- How the automaton of a shape is made, the operands being numbers of the entries given. -/
inductive Shape.Constructs (earlier : List Entry) :
    Shape → (LabelSupply → Automaton × LabelSupply) → Prop
  | symbol {s : Symbol} (hs : s.length ≤ 1) :
      Constructs earlier (.symbol s) fun supply => (Automaton.ofSymbol s, supply)
  | concat {i j : Nat} {left right : Entry} (hleft : earlier[i]? = some left)
      (hright : earlier[j]? = some right) :
      Constructs earlier (.concat i j) (left.automaton.concat right.automaton)
  | union {i j : Nat} {left right : Entry} (hleft : earlier[i]? = some left)
      (hright : earlier[j]? = some right) :
      Constructs earlier (.union i j) (left.automaton.union right.automaton)
  | iterate {i : Nat} {operand : Entry} (hoperand : earlier[i]? = some operand) :
      Constructs earlier (.iterate i) operand.automaton.iterate

variable {earlier more entries : List Entry} {entry : Entry} {shape : Shape}
  {make : LabelSupply → Automaton × LabelSupply} {supply : LabelSupply} {k n : Nat}

lemma Shape.Constructs.mono (h : shape.Constructs earlier make) (hmore : earlier <+: more) :
    shape.Constructs more make := by
  cases h with
  | symbol hs => exact .symbol hs
  | concat hleft hright => exact .concat (getElem?_mono hmore hleft) (getElem?_mono hmore hright)
  | union hleft hright => exact .union (getElem?_mono hmore hleft) (getElem?_mono hmore hright)
  | iterate hoperand => exact .iterate (getElem?_mono hmore hoperand)

namespace ExpressionStore

/-! ## Entries -/

/-- Entries that are made one behind the other, each from the entries before it and in a way in which
none of these has been made.  The labels come from a full supply, and the supply given is left. -/
inductive Made : List Entry → LabelSupply → Prop
  | nil : Made [] .full
  | snoc {entries : List Entry} {supply : LabelSupply} {shape : Shape}
      {make : LabelSupply → Automaton × LabelSupply} (before : Made entries supply)
      (constructs : shape.Constructs entries make) (new : shape ∉ entries.map (·.shape)) :
      Made (entries ++ [⟨shape, (make supply).1⟩]) (make supply).2

/-- Every entry has been made from the entries before it. -/
lemma Made.exists_constructs (h : Made entries supply) (hentry : entries[k]? = some entry) :
    ∃ make supply, entry.shape.Constructs (entries.take k) make ∧
      entry.automaton = (make supply).1 := by
  induction h generalizing k entry with
  | nil => cases hentry
  | @snoc entries supply shape make before constructs new ih =>
      rcases getElem?_concat_eq_some_iff.1 hentry with hold | ⟨rfl, rfl⟩
      · have hk : k ≤ entries.length := (List.getElem?_eq_some_iff.1 hold).1.le
        rw [List.take_append_of_le_length hk]
        exact ih hold
      · rw [List.take_left]
        exact ⟨make, supply, constructs, rfl⟩

/-- The numbers in the store are numbers of entries, the table of keys finds every entry under its
key, and the entries have been made one behind the other. -/
structure Sound (store : ExpressionStore) : Prop where
  made : Made store.entries store.supply
  numbers : ∀ (key : String) (k : Nat),
    store.numbers.get? key = some k ↔ store.keys[k]? = some key
  expressions : ∀ k ∈ store.expressions, k < store.entries.length
  texts : ∀ (text : String) (k : Nat), store.texts.get? text = some k → k < store.entries.length

variable {store t : ExpressionStore} {text : Option String} {A : Automaton}
  {instruction : Instruction}

lemma Sound.lt_length (h : store.Sound) (hindex : store.entryIndex? n = some k) :
    k < store.entries.length := by
  cases n with
  | zero => cases hindex
  | succ n => exact h.expressions k (List.mem_of_getElem? hindex)

lemma sound_empty : empty.Sound where
  made := .nil
  numbers key k := by simp [empty, keys]
  expressions k h := by cases h
  texts text k h := by cases h

/-! ## The two ways to add an expression -/

/-- A text that is new leads to the entry from now on, any other text leads where it did. -/
lemma texts_addExpression {x : String} {i : Nat}
    (h : (store.addExpression text k).texts.get? x = some i) :
    store.texts.get? x = some i ∨ i = k ∧ text = some x := by
  cases text with
  | none => exact .inl h
  | some text =>
      change (store.texts.insertIfNew text k).get? x = some i at h
      rw [SortedMap.get?_insertIfNew] at h
      split_ifs at h with hx
      · subst hx
        cases hold : store.texts.get? x with
        | none =>
            rw [hold] at h
            exact .inr ⟨(Option.some.inj h).symm, rfl⟩
        | some j =>
            rw [hold] at h
            exact .inl h
      · exact .inl h

lemma Sound.addExpression (h : store.Sound) (hk : k < store.entries.length) :
    (store.addExpression text k).Sound where
  made := h.made
  numbers := h.numbers
  expressions i hi := by
    rcases List.mem_append.1 hi with hi | hi
    · exact h.expressions i hi
    · rw [List.mem_singleton.1 hi]
      exact hk
  texts x i hi := by
    rcases texts_addExpression hi with hold | ⟨rfl, -⟩
    · exact h.texts x i hold
    · exact hk

lemma keys_addEntry : (store.addEntry shape make).keys = store.keys ++ [shape.render] := by
  rw [keys, keys]
  exact List.map_append

lemma length_entries_addEntry :
    (store.addEntry shape make).entries.length = store.entries.length + 1 :=
  List.length_append

lemma length_keys : store.keys.length = store.entries.length := List.length_map _

/-- The table of keys stays exact when an entry with a new key is added. -/
lemma numbers_addEntry (h : ∀ key k, store.numbers.get? key = some k ↔ store.keys[k]? = some key)
    (hnew : store.numbers.get? shape.render = none) (key : String) (k : Nat) :
    (store.addEntry shape make).numbers.get? key = some k ↔
      (store.addEntry shape make).keys[k]? = some key := by
  change (store.numbers.insert shape.render store.entries.length).get? key = some k ↔ _
  rw [keys_addEntry, getElem?_concat_eq_some_iff, length_keys, SortedMap.get?_insert]
  split_ifs with hkey
  · have habsent : store.keys[k]? ≠ some shape.render := by
      rw [Ne, ← h, hnew]
      simp
    subst hkey
    simp [habsent, eq_comm]
  · rw [h]
    exact (or_iff_left fun heq => hkey heq.2.symm).symm

lemma Sound.addEntry (h : store.Sound) (hnew : store.numbers.get? shape.render = none)
    (hconstructs : shape.Constructs store.entries make) : (store.addEntry shape make).Sound where
  made := by
    refine .snoc h.made hconstructs fun hmem => ?_
    have hkey : shape.render ∈ store.keys := by
      obtain ⟨entry, hentry, rfl⟩ := List.mem_map.1 hmem
      exact List.mem_map_of_mem hentry
    obtain ⟨k, hk⟩ := List.mem_iff_getElem?.1 hkey
    rw [(h.numbers _ k).2 hk] at hnew
    cases hnew
  numbers := numbers_addEntry h.numbers hnew
  expressions k hk := by
    have hlt : k < store.entries.length := h.expressions k hk
    rw [length_entries_addEntry]
    omega
  texts text k hk := by
    have hlt : k < store.entries.length := h.texts text k hk
    rw [length_entries_addEntry]
    omega

/-- An entry is known under its text or under its key. -/
lemma known?_eq_some (h : store.known? text shape = some k) :
    (∃ s, text = some s ∧ store.texts.get? s = some k) ∨
      store.numbers.get? shape.render = some k := by
  rw [known?, Option.or_eq_some_iff, Option.bind_eq_some_iff] at h
  exact h.imp_right And.right

lemma Sound.lt_of_known? (h : store.Sound) (hknown : store.known? text shape = some k) :
    k < store.entries.length := by
  rcases known?_eq_some hknown with ⟨s, -, hs⟩ | hkey
  · exact h.texts s k hs
  · rw [← length_keys]
    exact (List.getElem?_eq_some_iff.1 ((h.numbers _ k).1 hkey)).1

lemma numbers_of_known?_eq_none (h : store.known? text shape = none) :
    store.numbers.get? shape.render = none := by
  rw [known?, Option.or_eq_none_iff] at h
  exact h.2

lemma Sound.addShared (h : store.Sound) (hconstructs : shape.Constructs store.entries make) :
    (store.addShared text shape make).Sound := by
  rw [ExpressionStore.addShared]
  cases hknown : store.known? text shape with
  | some k => exact h.addExpression (h.lt_of_known? hknown)
  | none =>
      refine (h.addEntry (numbers_of_known?_eq_none hknown) hconstructs).addExpression ?_
      rw [length_entries_addEntry]
      exact Nat.lt_succ_self _

/-! ## Instructions -/

lemma entry?_eq_some_iff {entry : Entry} :
    store.entry? n = some (k, entry) ↔
      store.entryIndex? n = some k ∧ store.entries[k]? = some entry := by
  simp only [Option.bind_eq_bind, entry?, Option.bind_eq_some_iff, Option.pure_def,
    Option.some.injEq, Prod.mk.injEq]
  constructor
  · rintro ⟨i, hi, e, he, rfl, rfl⟩
    exact ⟨hi, he⟩
  · rintro ⟨hk, hentry⟩
    exact ⟨k, hk, entry, hentry, rfl, rfl⟩

lemma resolve_eq_ok_iff :
    store.resolve n = .ok (k, A) ↔
      ∃ entry, store.entry? n = some (k, entry) ∧ entry.automaton = A := by
  rw [resolve]
  cases store.entry? n with
  | none => simp
  | some found => simp [Prod.ext_iff, and_assoc]

lemma apply_symbol_eq_ok_iff {s : Symbol} :
    store.apply ⟨.symbol s, text⟩ = .ok t ↔
      s.length ≤ 1 ∧ t = store.addShared (text.map Text.stripParentheses) (.symbol s)
        fun supply => (Automaton.ofSymbol s, supply) := by
  simp only [apply]
  split_ifs with hlength
  · simp [hlength, @eq_comm ExpressionStore]
  · simp [hlength]

lemma apply_concat_eq_ok_iff {left right : Nat} :
    store.apply ⟨.concat left right, text⟩ = .ok t ↔
      ∃ i A j B, store.resolve left = .ok (i, A) ∧ store.resolve right = .ok (j, B) ∧
        t = store.addShared (text.map Text.stripParentheses) (.concat i j) (A.concat B) := by
  simp only [apply, bind_eq_ok_iff, Prod.exists, pure, Except.pure, Except.ok.injEq,
    exists_and_left, @eq_comm ExpressionStore]

lemma apply_union_eq_ok_iff {left right : Nat} :
    store.apply ⟨.union left right, text⟩ = .ok t ↔
      ∃ i A j B, store.resolve left = .ok (i, A) ∧ store.resolve right = .ok (j, B) ∧
        t = store.addShared (text.map Text.stripParentheses) (.union i j) (A.union B) := by
  simp only [apply, bind_eq_ok_iff, Prod.exists, pure, Except.pure, Except.ok.injEq,
    exists_and_left, @eq_comm ExpressionStore]

lemma apply_iterate_eq_ok_iff {operand : Nat} :
    store.apply ⟨.iterate operand, text⟩ = .ok t ↔
      ∃ i A, store.resolve operand = .ok (i, A) ∧
        t = store.addShared (text.map Text.stripParentheses) (.iterate i) A.iterate := by
  simp only [apply, bind_eq_ok_iff, Prod.exists, pure, Except.pure, Except.ok.injEq,
    @eq_comm ExpressionStore]

lemma apply_identity_eq_ok_iff {operand : Nat} :
    store.apply ⟨.identity operand, text⟩ = .ok t ↔
      ∃ i A, store.resolve operand = .ok (i, A) ∧
        t = store.addExpression (text.map Text.stripParentheses) i := by
  simp only [apply, bind_eq_ok_iff, Prod.exists, pure, Except.pure, Except.ok.injEq,
    @eq_comm ExpressionStore]

/-- **An instruction adds an expression for a shape that can be made, or an expression for an
entry.** -/
theorem apply_cases (h : store.apply instruction = .ok t) :
    (∃ shape make, shape.Constructs store.entries make ∧
        t = store.addShared (instruction.text.map Text.stripParentheses) shape make) ∨
      ∃ k < store.entries.length,
        t = store.addExpression (instruction.text.map Text.stripParentheses) k := by
  obtain ⟨operation, text⟩ := instruction
  cases operation with
  | symbol s =>
      obtain ⟨hs, rfl⟩ := apply_symbol_eq_ok_iff.1 h
      exact .inl ⟨_, _, .symbol hs, rfl⟩
  | concat left right =>
      obtain ⟨i, _, j, _, hleft, hright, rfl⟩ := apply_concat_eq_ok_iff.1 h
      obtain ⟨leftEntry, hi, rfl⟩ := resolve_eq_ok_iff.1 hleft
      obtain ⟨rightEntry, hj, rfl⟩ := resolve_eq_ok_iff.1 hright
      exact .inl ⟨_, _, .concat (entry?_eq_some_iff.1 hi).2 (entry?_eq_some_iff.1 hj).2, rfl⟩
  | union left right =>
      obtain ⟨i, _, j, _, hleft, hright, rfl⟩ := apply_union_eq_ok_iff.1 h
      obtain ⟨leftEntry, hi, rfl⟩ := resolve_eq_ok_iff.1 hleft
      obtain ⟨rightEntry, hj, rfl⟩ := resolve_eq_ok_iff.1 hright
      exact .inl ⟨_, _, .union (entry?_eq_some_iff.1 hi).2 (entry?_eq_some_iff.1 hj).2, rfl⟩
  | iterate operand =>
      obtain ⟨i, _, hoperand, rfl⟩ := apply_iterate_eq_ok_iff.1 h
      obtain ⟨entry, hi, rfl⟩ := resolve_eq_ok_iff.1 hoperand
      exact .inl ⟨_, _, .iterate (entry?_eq_some_iff.1 hi).2, rfl⟩
  | identity operand =>
      obtain ⟨i, _, hoperand, rfl⟩ := apply_identity_eq_ok_iff.1 h
      obtain ⟨entry, hi, -⟩ := resolve_eq_ok_iff.1 hoperand
      exact .inr ⟨i, (List.getElem?_eq_some_iff.1 (entry?_eq_some_iff.1 hi).2).1, rfl⟩

lemma expressions_addShared :
    ∃ k, (store.addShared text shape make).expressions = store.expressions ++ [k] := by
  rw [ExpressionStore.addShared]
  cases store.known? text shape with
  | some k => exact ⟨k, rfl⟩
  | none => exact ⟨store.entries.length, rfl⟩

/-- Every instruction adds one expression. -/
lemma expressions_of_apply (h : store.apply instruction = .ok t) :
    ∃ k, t.expressions = store.expressions ++ [k] := by
  obtain ⟨shape, make, -, rfl⟩ | ⟨k, -, rfl⟩ := apply_cases h
  · exact expressions_addShared
  · exact ⟨k, rfl⟩

lemma expressions_of_foldlM {instructions : List Instruction}
    (h : instructions.foldlM ExpressionStore.apply store = .ok t) :
    ∃ added, t.expressions = store.expressions ++ added ∧ added.length = instructions.length := by
  induction instructions generalizing store with
  | nil =>
      obtain rfl := Except.ok.inj h
      exact ⟨[], (List.append_nil _).symm, rfl⟩
  | cons i instructions ih =>
      rw [List.foldlM_cons] at h
      obtain ⟨next, hnext, hrest⟩ := bind_eq_ok_iff.1 h
      obtain ⟨k, hk⟩ := expressions_of_apply hnext
      obtain ⟨added, hadded, hlength⟩ := ih hrest
      refine ⟨k :: added, ?_, by rw [List.length_cons, hlength, List.length_cons]⟩
      rw [hadded, hk, List.append_assoc, List.singleton_append]

/-- **An instruction keeps a store sound.** -/
theorem Sound.apply (h : store.Sound) (happly : store.apply instruction = .ok t) : t.Sound := by
  obtain ⟨shape, make, hconstructs, rfl⟩ | ⟨k, hk, rfl⟩ := apply_cases happly
  · exact h.addShared hconstructs
  · exact h.addExpression hk

lemma Sound.foldlM {instructions : List Instruction} (h : store.Sound)
    (hfold : instructions.foldlM ExpressionStore.apply store = .ok t) : t.Sound := by
  induction instructions generalizing store with
  | nil =>
      obtain rfl := Except.ok.inj hfold
      exact h
  | cons i instructions ih =>
      rw [List.foldlM_cons] at hfold
      obtain ⟨next, hnext, hrest⟩ := bind_eq_ok_iff.1 hfold
      exact ih (h.apply hnext) hrest

/-- **Every store that is built is sound.** -/
theorem sound_of_buildAll {instructions : List Instruction}
    (h : buildAll instructions = .ok t) : t.Sound :=
  sound_empty.foldlM h

end ExpressionStore

end FiniteAutomata
