import FiniteAutomata.Proofs.Automaton.Labels
import FiniteAutomata.Proofs.ExpressionStore.Trees

/-!
# Expressions share what is the same, and nothing else

Without texts, expressions share an entry exactly if they unfold to the same tree, and no two entries
have the same automaton.  The first part follows the trees: an instruction makes its tree from the trees
of its operands, and the entry for it is looked up by its key, which tells trees apart.  The second part
is about the automata alone: the automaton of a symbol is determined by the symbol, and every combination
has labels that nothing built before it has.

* `trees?` — the trees of the expressions that instructions make.
* `Made.nodup_automata` — no two entries have the same automaton, whatever the texts are.
* `Unfolded`, `Unfolded.apply` — entries and expressions against trees, and what an instruction does.
* `Unfolded.numbered?_plain_eq_iff`, `Sound.automaton?_eq_iff` — what it takes to share an entry.
* **`same_tree_iff_same_automaton`** — equal trees, equal entries and equal automata are the same thing.
-/

namespace FiniteAutomata

/-- The trees of the expressions that instructions make: the tree of an instruction is made from the
trees of its operands, and an identity has the tree of its operand. -/
def Instruction.trees? (instructions : List Instruction) : Option (List Regex) :=
  (Regex.madeBy? [] instructions).map (·.map Regex.plain)

namespace ExpressionStore

variable {store t : ExpressionStore} {entries : List Entry} {supply : LabelSupply} {shape : Shape}
  {make : LabelSupply → Automaton × LabelSupply} {entry : Entry} {built trees : List Regex}
  {e : Regex} {k n : Nat} {A : Automaton} {operation : Operation} {is : List Instruction}

/-! ## Entries have different automata -/

/-- The automaton of an entry is that of its symbol, or a combination that the supply is ahead of. -/
def MadeBefore (supply : LabelSupply) (shape : Shape) (A : Automaton) : Prop :=
  (∃ s, shape = .symbol s ∧ A = Automaton.ofSymbol s) ∨ A.Combined .full supply

lemma MadeBefore.hasEnds (h : MadeBefore supply shape A) : A.HasEnds := by
  rcases h with ⟨s, -, rfl⟩ | hcombined
  · exact Automaton.hasEnds_ofSymbol s
  · exact hcombined.ends

lemma MadeBefore.mono {later : LabelSupply} (h : MadeBefore supply shape A)
    (hle : supply.handedOut ≤ later.handedOut) : MadeBefore later shape A :=
  h.imp_right fun hcombined => hcombined.mono le_rfl hle

/-- What a shape makes is the automaton of its symbol or a combination. -/
lemma ofSymbol_or_combined (hends : ∀ entry ∈ entries, entry.automaton.HasEnds)
    (h : shape.Constructs entries make) (supply : LabelSupply) :
    (∃ s, shape = .symbol s ∧ make supply = (Automaton.ofSymbol s, supply)) ∨
      (make supply).1.Combined supply (make supply).2 := by
  cases h with
  | @symbol s hs => exact .inl ⟨s, rfl, rfl⟩
  | concat hleft hright =>
      exact .inr (Automaton.combined_concat (hends _ (List.mem_of_getElem? hleft))
        (hends _ (List.mem_of_getElem? hright)))
  | union hleft hright =>
      exact .inr (Automaton.combined_union (hends _ (List.mem_of_getElem? hleft)))
  | iterate hoperand =>
      exact .inr (Automaton.combined_iterate (hends _ (List.mem_of_getElem? hoperand)))

lemma Made.madeBefore (h : Made entries supply) :
    ∀ entry ∈ entries, MadeBefore supply entry.shape entry.automaton := by
  induction h with
  | nil => simp
  | @snoc entries supply shape make before constructs new ih =>
      intro entry hentry
      have hends := fun entry hentry => (ih entry hentry).hasEnds
      rcases ofSymbol_or_combined hends constructs supply with ⟨s, rfl, hmake⟩ | hcombined
      · rw [hmake] at hentry ⊢
        rcases List.mem_append.1 hentry with hentry | hentry
        · exact ih entry hentry
        · obtain rfl := List.mem_singleton.1 hentry
          exact .inl ⟨s, rfl, rfl⟩
      · rcases List.mem_append.1 hentry with hentry | hentry
        · exact (ih entry hentry).mono hcombined.lt.le
        · obtain rfl := List.mem_singleton.1 hentry
          exact .inr (hcombined.mono (Nat.zero_le _) le_rfl)

/-- **No two entries have the same automaton.** -/
theorem Made.nodup_automata (h : Made entries supply) : (entries.map (·.automaton)).Nodup := by
  induction h with
  | nil => exact List.nodup_nil
  | @snoc entries supply shape make before constructs new ih =>
      have hbefore := before.madeBefore
      have hends := fun entry hentry => (hbefore entry hentry).hasEnds
      rw [List.map_append, List.map_singleton, ← List.concat_eq_append]
      refine ih.concat fun hmem => ?_
      obtain ⟨entry, hentry, hsame⟩ := List.mem_map.1 hmem
      -- an old entry and the new one can each be a symbol or a combination
      rcases ofSymbol_or_combined hends constructs supply with ⟨s, rfl, hmake⟩ | hcombined
      · rw [hmake] at hsame
        rcases hbefore entry hentry with ⟨r, hshape, hr⟩ | hold
        · obtain rfl := Automaton.ofSymbol_injective (hr.symm.trans hsame)
          exact new (hshape ▸ List.mem_map_of_mem hentry)
        · exact hold.ne_ofSymbol s hsame
      · rcases hbefore entry hentry with ⟨r, -, hr⟩ | hold
        · exact hcombined.ne_ofSymbol r (hsame.symm.trans hr)
        · exact hold.ne_of_le hcombined le_rfl hsame

/-! ## Expressions unfold to trees -/

/-- The trees of the entries are those that the expressions unfold to, up to groups: the entry of an
expression has the tree of the expression, and every entry has an expression. -/
structure Unfolded (store : ExpressionStore) (built trees : List Regex) : Prop where
  mirrors : store.Mirrors trees
  expressions : store.expressions.map (trees[·]?) = built.map fun e => some e.plain
  members : ∀ tree, tree ∈ trees ↔ tree ∈ built.map Regex.plain

lemma unfolded_empty : empty.Unfolded [] [] where
  mirrors := mirrors_empty
  expressions := rfl
  members tree := by simp

/-- The tree of an expression, if there is one, is the tree of its entry. -/
lemma Unfolded.numbered?_eq (h : store.Unfolded built trees) (n : Nat) :
    (Regex.numbered? built n).map Regex.plain = (store.entryIndex? n).bind (trees[·]?) := by
  cases n with
  | zero => rfl
  | succ n =>
      have hn := congrArg (·[n]?) h.expressions
      simp only [List.getElem?_map] at hn
      rw [Regex.numbered?, entryIndex?]
      cases hk : store.expressions[n]? with
      | none =>
          rw [hk, Option.map_none, eq_comm, Option.map_eq_none_iff] at hn
          rw [hn]
          rfl
      | some k =>
          rw [hk, Option.map_some] at hn
          obtain ⟨e, he, hplain⟩ := Option.map_eq_some_iff.1 hn.symm
          rw [he, Option.bind_some, ← hplain]
          rfl

lemma Unfolded.operand (h : store.Unfolded built trees) (hresolve : store.resolve n = .ok (k, A)) :
    ∃ e, Regex.numbered? built n = some e ∧ trees[k]? = some e.plain := by
  obtain ⟨entry, hentry, -⟩ := resolve_eq_ok_iff.1 hresolve
  obtain ⟨hindex, hentry⟩ := entry?_eq_some_iff.1 hentry
  have hk : k < trees.length := by
    rw [← h.mirrors.length]
    exact (List.getElem?_eq_some_iff.1 hentry).1
  have htree := h.numbered?_eq n
  rw [hindex, Option.bind_some, List.getElem?_eq_getElem hk] at htree
  obtain ⟨e, he, hplain⟩ := Option.map_eq_some_iff.1 htree
  exact ⟨e, he, hplain ▸ List.getElem?_eq_getElem hk⟩

/-- An expression for an entry has the tree of the entry. -/
lemma Unfolded.addExpression (h : store.Unfolded built trees) (hk : trees[k]? = some e.plain) :
    (store.addExpression none k).Unfolded (built ++ [e]) trees where
  mirrors := h.mirrors.addExpression names_none hk
  expressions := by
    change (store.expressions ++ [k]).map _ = _
    rw [List.map_append, List.map_append, h.expressions, List.map_singleton, hk]
    rfl
  members tree := by
    rw [List.map_append, List.map_singleton, List.mem_append, List.mem_singleton, h.members]
    refine (or_iff_left_of_imp ?_).symm
    rintro rfl
    exact (h.members _).1 (List.mem_of_getElem? hk)

variable (make) in
/-- An expression for a shape has the tree that the shape makes. -/
lemma Unfolded.addShared (h : store.Unfolded built trees) (hmakes : shape.Makes trees e.plain) :
    ∃ more, (store.addShared none shape make).Unfolded (built ++ [e]) more := by
  obtain ⟨more, k, hmore, hk, hmirrors, hexpressions⟩ := h.mirrors.addShared make names_none hmakes
  have hprefix : trees <+: more := by
    rcases hmore with rfl | rfl
    · exact List.prefix_refl _
    · exact List.prefix_append _ _
  refine ⟨more, hmirrors, ?_, fun tree => ?_⟩
  · have hold : store.expressions.map (more[·]?) = store.expressions.map (trees[·]?) := by
      refine List.map_congr_left fun i hi => ?_
      have hi : trees[i]? ∈ store.expressions.map (trees[·]?) := List.mem_map_of_mem hi
      rw [h.expressions] at hi
      obtain ⟨d, -, hd⟩ := List.mem_map.1 hi
      rw [← hd]
      exact getElem?_mono hprefix hd.symm
    rw [hexpressions, List.map_append, List.map_append, hold, h.expressions, List.map_singleton, hk]
    rfl
  · rw [List.map_append, List.map_singleton, List.mem_append, List.mem_singleton, ← h.members]
    rcases hmore with rfl | rfl
    · refine (or_iff_left_of_imp ?_).symm
      rintro rfl
      exact List.mem_of_getElem? hk
    · rw [List.mem_append, List.mem_singleton]

/-- **An instruction makes its tree from the trees of its operands.** -/
theorem Unfolded.apply (h : store.Unfolded built trees)
    (happly : store.apply ⟨operation, none⟩ = .ok t) :
    ∃ e more, Regex.made? built operation = some e ∧ t.Unfolded (built ++ [e]) more := by
  cases operation with
  | symbol s =>
      obtain ⟨hs, rfl⟩ := apply_symbol_eq_ok_iff.1 happly
      rcases Automaton.eq_epsilon_or_singleton hs with rfl | ⟨c, rfl⟩
      · obtain ⟨more, hmore⟩ := h.addShared _ (e := .epsilon) .epsilon
        exact ⟨_, more, rfl, hmore⟩
      · obtain ⟨more, hmore⟩ := h.addShared _ (e := .symbol c) (.symbol c)
        exact ⟨_, more, by simp [Regex.made?], hmore⟩
  | concat left right =>
      obtain ⟨i, A, j, B, hleft, hright, rfl⟩ := apply_concat_eq_ok_iff.1 happly
      obtain ⟨l, hl, hi⟩ := h.operand hleft
      obtain ⟨r, hr, hj⟩ := h.operand hright
      obtain ⟨more, hmore⟩ := h.addShared (A.concat B) (e := .concat l r) (.concat hi hj)
      exact ⟨_, more, by simp [Regex.made?, hl, hr], hmore⟩
  | union left right =>
      obtain ⟨i, A, j, B, hleft, hright, rfl⟩ := apply_union_eq_ok_iff.1 happly
      obtain ⟨l, hl, hi⟩ := h.operand hleft
      obtain ⟨r, hr, hj⟩ := h.operand hright
      obtain ⟨more, hmore⟩ := h.addShared (A.union B) (e := .union l r) (.union hi hj)
      exact ⟨_, more, by simp [Regex.made?, hl, hr], hmore⟩
  | iterate operand =>
      obtain ⟨i, A, hoperand, rfl⟩ := apply_iterate_eq_ok_iff.1 happly
      obtain ⟨x, hx, hi⟩ := h.operand hoperand
      obtain ⟨more, hmore⟩ := h.addShared A.iterate (e := .iterate x) (.iterate hi)
      exact ⟨_, more, by simp [Regex.made?, hx], hmore⟩
  | identity operand =>
      obtain ⟨i, A, hoperand, rfl⟩ := apply_identity_eq_ok_iff.1 happly
      obtain ⟨x, hx, hi⟩ := h.operand hoperand
      exact ⟨_, trees, by simp [Regex.made?, hx], h.addExpression (e := .group x) hi⟩

/-- **Instructions without texts unfold to trees**, one for every expression. -/
theorem Unfolded.foldlM (h : store.Unfolded built trees) (hbare : ∀ i ∈ is, i.text = none)
    (hfold : is.foldlM ExpressionStore.apply store = .ok t) :
    ∃ all more, Regex.madeBy? built is = some all ∧ t.Unfolded all more := by
  induction is generalizing store built trees with
  | nil =>
      obtain rfl := Except.ok.inj hfold
      exact ⟨built, trees, rfl, h⟩
  | cons i is ih =>
      rw [List.forall_mem_cons] at hbare
      rw [List.foldlM_cons] at hfold
      obtain ⟨next, hnext, hrest⟩ := bind_eq_ok_iff.1 hfold
      obtain ⟨operation, _⟩ := i
      obtain rfl := hbare.1
      obtain ⟨e, more, he, hmore⟩ := h.apply hnext
      obtain ⟨all, last, hall, hlast⟩ := ih hmore hbare.2 hrest
      refine ⟨all, last, ?_, hlast⟩
      rw [Regex.madeBy?, List.foldlM_cons, he]
      exact hall

/-! ## Equal trees, equal entries, equal automata -/

/-- Look-ups in a list without repetitions agree exactly if the numbers do. -/
lemma bind_getElem?_inj {α : Type} {xs : List α} (hxs : xs.Nodup) {o p : Option Nat}
    (ho : ∀ k, o = some k → k < xs.length) (hp : ∀ k, p = some k → k < xs.length) :
    o.bind (xs[·]?) = p.bind (xs[·]?) ↔ o = p := by
  refine ⟨fun h => ?_, fun h => h ▸ rfl⟩
  cases o with
  | none =>
      cases p with
      | none => rfl
      | some j => simp [List.getElem?_eq_getElem (hp j rfl)] at h
  | some i =>
      cases p with
      | none => simp [List.getElem?_eq_getElem (ho i rfl)] at h
      | some j => rw [(List.getElem?_inj (ho i rfl) hxs).1 h]

lemma automaton?_eq_bind (store : ExpressionStore) (n : Nat) :
    store.automaton? n =
      (store.entryIndex? n).bind ((store.entries.map (·.automaton))[·]?) := by
  rw [automaton?, entry?]
  cases hindex : store.entryIndex? n with
  | none => rfl
  | some k =>
      cases hentry : store.entries[k]? <;> simp [hentry]

/-- **Expressions have the same tree if and only if they share their entry.** -/
theorem Unfolded.numbered?_plain_eq_iff (h : store.Unfolded built trees) (hsound : store.Sound)
    (i j : Nat) :
    Regex.numbered? (built.map Regex.plain) i = Regex.numbered? (built.map Regex.plain) j ↔
      store.entryIndex? i = store.entryIndex? j := by
  have htree : ∀ n, Regex.numbered? (built.map Regex.plain) n =
      (store.entryIndex? n).bind (trees[·]?) := by
    intro n
    rw [← h.numbered?_eq]
    cases n with
    | zero => rfl
    | succ n => exact List.getElem?_map
  have hlt : ∀ n k, store.entryIndex? n = some k → k < trees.length := by
    intro n k hk
    rw [← h.mirrors.length]
    exact hsound.lt_length hk
  rw [htree, htree]
  exact bind_getElem?_inj h.mirrors.nodup (hlt i) (hlt j)

/-- **Expressions have the same automaton if and only if they share their entry.** -/
theorem Sound.automaton?_eq_iff (h : store.Sound) (i j : Nat) :
    store.automaton? i = store.automaton? j ↔ store.entryIndex? i = store.entryIndex? j := by
  have hlt : ∀ n k, store.entryIndex? n = some k →
      k < (store.entries.map (·.automaton)).length := by
    intro n k hk
    rw [List.length_map]
    exact h.lt_length hk
  rw [automaton?_eq_bind, automaton?_eq_bind]
  exact bind_getElem?_inj h.made.nodup_automata (hlt i) (hlt j)

/-- **Equal trees, equal entries and equal automata are the same thing**, if the instructions have no
texts.  So there are as many entries as different trees. -/
theorem same_tree_iff_same_automaton {is : List Instruction} {store : ExpressionStore}
    (hbare : ∀ i ∈ is, i.text = none) (h : buildAll is = .ok store) :
    ∃ trees, Instruction.trees? is = some trees ∧ trees.length = store.expressions.length ∧
      (∀ i j, Regex.numbered? trees i = Regex.numbered? trees j ↔
        store.entryIndex? i = store.entryIndex? j) ∧
      (∀ i j, Regex.numbered? trees i = Regex.numbered? trees j ↔
        store.automaton? i = store.automaton? j) ∧
      store.entries.length = trees.toFinset.card := by
  obtain ⟨built, trees, hbuilt, hunfolded⟩ := unfolded_empty.foldlM hbare h
  have hsound := sound_of_buildAll h
  have hentries := hunfolded.numbered?_plain_eq_iff hsound
  refine ⟨built.map Regex.plain, ?_, ?_, hentries, fun i j => ?_, ?_⟩
  · rw [Instruction.trees?, hbuilt, Option.map_some]
  · have hlength := congrArg List.length hunfolded.expressions
    rw [List.length_map, List.length_map] at hlength
    rw [List.length_map, hlength]
  · rw [hentries, hsound.automaton?_eq_iff]
  · have hsame : (built.map Regex.plain).toFinset = trees.toFinset := by
      ext tree
      rw [List.mem_toFinset, List.mem_toFinset, hunfolded.members]
    rw [hsame, List.toFinset_card_of_nodup hunfolded.mirrors.nodup, hunfolded.mirrors.length]

theorem same_tree_iff_same_automaton_repeated :
    (∀ i ∈ repeated.instructions.map Instruction.withoutText, i.text = none) ∧
      ∃ store, buildAll (repeated.instructions.map Instruction.withoutText) = .ok store ∧
        ∃ trees, Instruction.trees? (repeated.instructions.map Instruction.withoutText) =
            some trees ∧ trees.length = store.expressions.length ∧
          (∀ i j, Regex.numbered? trees i = Regex.numbered? trees j ↔
            store.entryIndex? i = store.entryIndex? j) ∧
          (∀ i j, Regex.numbered? trees i = Regex.numbered? trees j ↔
            store.automaton? i = store.automaton? j) ∧
          store.entries.length = trees.toFinset.card := by
  have hbare : ∀ i ∈ repeated.instructions.map Instruction.withoutText, i.text = none := by
    simp [Instruction.withoutText]
  obtain ⟨store, hstore⟩ : ∃ store,
      buildAll (repeated.instructions.map Instruction.withoutText) = .ok store := ⟨_, rfl⟩
  exact ⟨hbare, store, hstore, same_tree_iff_same_automaton hbare hstore⟩

end ExpressionStore

end FiniteAutomata
