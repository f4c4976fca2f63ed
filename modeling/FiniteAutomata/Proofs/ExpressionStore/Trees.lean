import FiniteAutomata.Proofs.ExpressionStore.Keys
import FiniteAutomata.Proofs.ExpressionStore.Sound
import FiniteAutomata.Proofs.Regex.Listing
import FiniteAutomata.Proofs.Regex.Parentheses

/-!
# Entries are trees

While a store is filled from a regular expression, its entries correspond to distinct trees without
groups: the shape of an entry makes its tree from the trees of the operands, and a known text is the
text of an expression that is this tree up to groups (`Mirrors`).  An entry that is found under a text
is therefore the one that would be found under the shape, and the texts make no difference.

* `Mirrors.get?_numbers`, `Mirrors.known?_eq` — both ways to look an entry up find the tree.
* `RunsAlike` — instructions do the same with and without their texts.
* `exists_builds` — the instructions of a well-formed expression do, and the last expression that they
  make is the tree.
* `buildAll_withoutText` — the texts of an accepted text change nothing.
-/

namespace FiniteAutomata

/-- The tree that a shape makes, its operands being numbers of the trees given. -/
inductive Shape.Makes (trees : List Regex) : Shape → Regex → Prop
  | epsilon : Makes trees (.symbol epsilon) .epsilon
  | symbol (c : Char) : Makes trees (.symbol (String.singleton c)) (.symbol c)
  | concat {i j : Nat} {left right : Regex} (hleft : trees[i]? = some left)
      (hright : trees[j]? = some right) : Makes trees (.concat i j) (.concat left right)
  | union {i j : Nat} {left right : Regex} (hleft : trees[i]? = some left)
      (hright : trees[j]? = some right) : Makes trees (.union i j) (.union left right)
  | iterate {i : Nat} {operand : Regex} (hoperand : trees[i]? = some operand) :
      Makes trees (.iterate i) (.iterate operand)

/-- The instruction without its text. -/
def Instruction.withoutText (instruction : Instruction) : Instruction :=
  { instruction with text := none }

variable {trees more : List Regex} {tree tree' e : Regex} {shape shape' : Shape}

namespace Shape.Makes

lemma mono (h : trees <+: more) (hmakes : shape.Makes trees tree) : shape.Makes more tree := by
  cases hmakes with
  | epsilon => exact .epsilon
  | symbol c => exact .symbol c
  | concat hleft hright => exact .concat (getElem?_mono h hleft) (getElem?_mono h hright)
  | union hleft hright => exact .union (getElem?_mono h hleft) (getElem?_mono h hright)
  | iterate hoperand => exact .iterate (getElem?_mono h hoperand)

lemma of_symbol {s : Symbol} (h : (Shape.symbol s).Makes trees tree) :
    s = FiniteAutomata.epsilon ∧ tree = .epsilon ∨ ∃ c, s = String.singleton c ∧ tree = .symbol c := by
  cases h with
  | epsilon => exact .inl ⟨rfl, rfl⟩
  | symbol c => exact .inr ⟨c, rfl, rfl⟩

lemma tree_eq (h : shape.Makes trees tree) (h' : shape.Makes trees tree') : tree = tree' := by
  cases h with
  | epsilon =>
      rcases h'.of_symbol with ⟨-, rfl⟩ | ⟨c, hc, -⟩
      · rfl
      · exact absurd hc.symm String.singleton_ne_empty
  | symbol c =>
      rcases h'.of_symbol with ⟨hc, -⟩ | ⟨d, hd, rfl⟩
      · exact absurd hc String.singleton_ne_empty
      · rw [String.singleton_inj.1 hd]
  | concat hleft hright =>
      cases h' with
      | concat hleft' hright' =>
          rw [hleft] at hleft'
          rw [hright] at hright'
          rw [Option.some.inj hleft', Option.some.inj hright']
  | union hleft hright =>
      cases h' with
      | union hleft' hright' =>
          rw [hleft] at hleft'
          rw [hright] at hright'
          rw [Option.some.inj hleft', Option.some.inj hright']
  | iterate hoperand =>
      cases h' with
      | iterate hoperand' =>
          rw [hoperand] at hoperand'
          rw [Option.some.inj hoperand']

lemma shape_eq (hnodup : trees.Nodup) (h : shape.Makes trees tree) (h' : shape'.Makes trees tree) :
    shape = shape' := by
  have hindex {i j : Nat} {x : Regex} (hi : trees[i]? = some x) (hj : trees[j]? = some x) : i = j :=
    (List.getElem?_inj (List.getElem?_eq_some_iff.1 hi).1 hnodup).1 (hi.trans hj.symm)
  cases h with
  | epsilon => cases h'; rfl
  | symbol c => cases h'; rfl
  | concat hleft hright =>
      cases h' with
      | concat hleft' hright' => rw [hindex hleft hleft', hindex hright hright']
  | union hleft hright =>
      cases h' with
      | union hleft' hright' => rw [hindex hleft hleft', hindex hright hright']
  | iterate hoperand =>
      cases h' with
      | iterate hoperand' => rw [hindex hoperand hoperand']

end Shape.Makes

namespace ExpressionStore

/-! ## Entries and trees -/

/-- Every entry has a tree, no two have the same, and shapes, keys and texts agree with the trees. -/
structure Mirrors (store : ExpressionStore) (trees : List Regex) : Prop where
  nodup : trees.Nodup
  length : store.entries.length = trees.length
  numbers : ∀ (key : String) (k : Nat),
    store.numbers.get? key = some k ↔ store.keys[k]? = some key
  makes : ∀ (k : Nat) (entry : Entry) (tree : Regex), store.entries[k]? = some entry →
    trees[k]? = some tree → entry.shape.Makes trees tree
  texts : ∀ (text : String) (k : Nat), store.texts.get? text = some k →
    ∃ e : Regex, e.WellFormed ∧ Text.stripParentheses e.render = text ∧ trees[k]? = some e.plain

variable {store s t : ExpressionStore} {make : LabelSupply → Automaton × LabelSupply} {k n : Nat}

lemma mirrors_empty : empty.Mirrors [] where
  nodup := List.nodup_nil
  length := rfl
  numbers := sound_empty.numbers
  makes k entry tree h := by cases h
  texts text k h := by cases h

lemma Mirrors.exists_entry (h : store.Mirrors trees) (htree : trees[k]? = some tree) :
    ∃ entry, store.entries[k]? = some entry ∧ entry.shape.Makes trees tree := by
  have hk : k < store.entries.length := by
    rw [h.length]
    exact (List.getElem?_eq_some_iff.1 htree).1
  have hentry := List.getElem?_eq_getElem hk
  exact ⟨_, hentry, h.makes k _ tree hentry htree⟩

lemma Mirrors.getElem?_shape (h : store.Mirrors trees) (hmakes : shape.Makes trees tree) :
    (store.entries.map (·.shape))[k]? = some shape ↔ trees[k]? = some tree := by
  rw [List.getElem?_map, Option.map_eq_some_iff]
  constructor
  · rintro ⟨entry, hentry, rfl⟩
    have hk : k < trees.length := by
      rw [← h.length]
      exact (List.getElem?_eq_some_iff.1 hentry).1
    have htree := List.getElem?_eq_getElem hk
    rw [htree, (h.makes k entry _ hentry htree).tree_eq hmakes]
  · intro htree
    obtain ⟨entry, hentry, hmakes'⟩ := h.exists_entry htree
    exact ⟨entry, hentry, hmakes'.shape_eq h.nodup hmakes⟩

/-- **The look-up of a key finds the tree that the shape makes.** -/
theorem Mirrors.get?_numbers (h : store.Mirrors trees) (hmakes : shape.Makes trees tree) :
    store.numbers.get? shape.render = trees.idxOf? tree := by
  have hkeys (k : Nat) : store.keys[k]? = some shape.render ↔
      (store.entries.map (·.shape))[k]? = some shape := by
    simp only [keys, List.getElem?_map, Option.map_eq_some_iff, Shape.render_injective.eq_iff]
  ext k
  rw [h.numbers, hkeys, h.getElem?_shape hmakes, idxOf?_eq_some_iff_of_nodup h.nodup]

/-- The text, if there is one, is that of an expression which is the tree up to groups. -/
def Names (text : Option String) (tree : Regex) : Prop :=
  ∀ s, text = some s →
    ∃ e : Regex, e.WellFormed ∧ Text.stripParentheses e.render = s ∧ e.plain = tree

lemma names_none : Names none tree := by
  intro s hs
  cases hs

lemma names_render (he : e.WellFormed) : Names (some (Text.stripParentheses e.render)) e.plain := by
  intro s hs
  obtain rfl := Option.some.inj hs
  exact ⟨e, he, rfl, rfl⟩

/-- **A text makes no difference to the look-up.** -/
theorem Mirrors.known?_eq {text : Option String} (h : store.Mirrors trees) (htext : Names text tree)
    (hmakes : shape.Makes trees tree) : store.known? text shape = trees.idxOf? tree := by
  rw [known?, h.get?_numbers hmakes]
  cases text with
  | none => rfl
  | some s =>
      obtain ⟨e, he, hs, rfl⟩ := htext s rfl
      rw [Option.bind_some]
      cases hfound : store.texts.get? s with
      | none => rfl
      | some k =>
          obtain ⟨d, hd, hrender, htree⟩ := h.texts s k hfound
          rw [Regex.plain_eq_of_stripParentheses_eq hd he (hrender.trans hs.symm)] at htree
          rw [Option.some_or, eq_comm, idxOf?_eq_some_iff_of_nodup h.nodup]
          exact htree

/-! ## Additions -/

lemma Mirrors.addExpression {text : Option String} (h : store.Mirrors trees)
    (htext : Names text tree) (hk : trees[k]? = some tree) :
    (store.addExpression text k).Mirrors trees where
  nodup := h.nodup
  length := h.length
  numbers := h.numbers
  makes := h.makes
  texts x i hi := by
    rcases texts_addExpression hi with hold | ⟨rfl, rfl⟩
    · exact h.texts x i hold
    · obtain ⟨e, he, hrender, rfl⟩ := htext x rfl
      exact ⟨e, he, hrender, hk⟩

lemma Mirrors.addEntry (h : store.Mirrors trees) (hmakes : shape.Makes trees tree)
    (hnew : tree ∉ trees) : (store.addEntry shape make).Mirrors (trees ++ [tree]) where
  nodup := by
    rw [← List.concat_eq_append]
    exact h.nodup.concat hnew
  length := by
    rw [length_entries_addEntry, h.length, List.length_append, List.length_singleton]
  numbers := by
    refine numbers_addEntry h.numbers ?_
    rw [h.get?_numbers hmakes]
    exact List.idxOf?_eq_none_iff.2 hnew
  makes k entry x hentry hx := by
    have hprefix : trees <+: trees ++ [tree] := List.prefix_append _ _
    change (store.entries ++ [_])[k]? = some entry at hentry
    rw [getElem?_concat_eq_some_iff] at hentry hx
    rcases hentry with hentry | ⟨rfl, rfl⟩
    · have hk : k ≠ trees.length := by
        have hlt := (List.getElem?_eq_some_iff.1 hentry).1
        have hlength := h.length
        omega
      exact (h.makes k entry x hentry (hx.resolve_right fun hlast => hk hlast.1)).mono hprefix
    · rcases hx with hx | ⟨-, rfl⟩
      · have hlt := (List.getElem?_eq_some_iff.1 hx).1
        rw [h.length] at hlt
        exact absurd hlt (lt_irrefl _)
      · exact hmakes.mono hprefix
  texts text k hk := by
    obtain ⟨e, he, hrender, htree⟩ := h.texts text k hk
    exact ⟨e, he, hrender, getElem?_mono (List.prefix_append _ _) htree⟩

variable (make) in
/-- What is added for a shape refers to the tree that the shape makes, which is a new tree only if no
entry had it. -/
lemma Mirrors.addShared {text : Option String} (h : store.Mirrors trees) (htext : Names text tree)
    (hmakes : shape.Makes trees tree) :
    ∃ more k, (more = trees ∨ more = trees ++ [tree]) ∧ more[k]? = some tree ∧
      (store.addShared text shape make).Mirrors more ∧
      (store.addShared text shape make).expressions = store.expressions ++ [k] := by
  rw [ExpressionStore.addShared, h.known?_eq htext hmakes]
  cases hknown : trees.idxOf? tree with
  | some k =>
      have hk := (idxOf?_eq_some_iff_of_nodup h.nodup).1 hknown
      exact ⟨trees, k, .inl rfl, hk, h.addExpression htext hk, rfl⟩
  | none =>
      have hnew : tree ∉ trees := List.idxOf?_eq_none_iff.1 hknown
      have hk : (trees ++ [tree])[store.entries.length]? = some tree := by
        rw [h.length, List.getElem?_concat_length]
      exact ⟨trees ++ [tree], store.entries.length, .inr rfl, hk,
        (h.addEntry hmakes hnew).addExpression htext hk, rfl⟩

/-! ## Runs with and without texts -/

/-- The tree of the expression with this number. -/
def TreeAt (store : ExpressionStore) (trees : List Regex) (number : Nat) (tree : Regex) : Prop :=
  ∃ k, store.entryIndex? number = some k ∧ trees[k]? = some tree

lemma treeAt_last {before : List Nat} (h : store.expressions = before ++ [k])
    (hk : trees[k]? = some tree) : store.TreeAt trees store.expressions.length tree := by
  refine ⟨k, ?_, hk⟩
  rw [h, List.length_append, List.length_singleton, entryIndex?, h, List.getElem?_concat_length]

lemma TreeAt.mono (h : store.TreeAt trees n tree) (hexpressions : store.expressions <+: t.expressions)
    (htrees : trees <+: more) : t.TreeAt more n tree := by
  obtain ⟨k, hindex, htree⟩ := h
  refine ⟨k, ?_, getElem?_mono htrees htree⟩
  cases n with
  | zero => cases hindex
  | succ n => exact getElem?_mono hexpressions hindex

lemma Mirrors.exists_resolve (h : store.Mirrors trees) (htree : store.TreeAt trees n tree) :
    ∃ k A, store.resolve n = .ok (k, A) ∧ trees[k]? = some tree := by
  obtain ⟨k, hindex, hk⟩ := htree
  obtain ⟨entry, hentry, -⟩ := h.exists_entry hk
  exact ⟨k, entry.automaton,
    resolve_eq_ok_iff.2 ⟨entry, entry?_eq_some_iff.2 ⟨hindex, hentry⟩, rfl⟩, hk⟩

/-- The store without its texts. -/
def withoutTexts (store : ExpressionStore) : ExpressionStore := { store with texts := ∅ }

/-- Instructions lead from a store to another, and without texts they do so too. -/
structure RunsAlike (store : ExpressionStore) (instructions : List Instruction)
    (t : ExpressionStore) : Prop where
  withTexts : instructions.foldlM apply store = .ok t
  withoutTexts : (instructions.map Instruction.withoutText).foldlM apply store.withoutTexts =
    .ok t.withoutTexts

variable {is js : List Instruction}

lemma RunsAlike.append (h : store.RunsAlike is s) (h' : s.RunsAlike js t) :
    store.RunsAlike (is ++ js) t where
  withTexts := by
    rw [List.foldlM_append, h.withTexts]
    exact h'.withTexts
  withoutTexts := by
    rw [List.map_append, List.foldlM_append, h.withoutTexts]
    exact h'.withoutTexts

lemma RunsAlike.nil (store : ExpressionStore) : store.RunsAlike [] store := ⟨rfl, rfl⟩

lemma RunsAlike.single {instruction : Instruction} (h : store.apply instruction = .ok t)
    (h' : store.withoutTexts.apply instruction.withoutText = .ok t.withoutTexts) :
    store.RunsAlike [instruction] t where
  withTexts := by
    rw [List.foldlM_cons, h]
    rfl
  withoutTexts := by
    rw [List.map_singleton, List.foldlM_cons, h']
    rfl

lemma RunsAlike.expressions (h : store.RunsAlike is t) :
    store.expressions <+: t.expressions ∧
      t.expressions.length = store.expressions.length + is.length := by
  obtain ⟨added, hadded, hlength⟩ := expressions_of_foldlM h.withTexts
  rw [hadded, List.length_append, hlength]
  exact ⟨List.prefix_append _ _, rfl⟩

lemma addShared_withoutTexts {text : Option String}
    (h : store.known? text shape = store.known? none shape) :
    store.withoutTexts.addShared none shape make = (store.addShared text shape make).withoutTexts := by
  have hbare : store.withoutTexts.known? none shape = store.known? none shape := rfl
  rw [ExpressionStore.addShared, ExpressionStore.addShared, hbare, h]
  cases store.known? none shape with
  | some k => rfl
  | none => rfl

/-- Instructions lead, with or without texts, to a store the last expression of which is the tree of
`e`. -/
structure Builds (store : ExpressionStore) (trees : List Regex) (instructions : List Instruction)
    (e : Regex) (t : ExpressionStore) (more : List Regex) : Prop where
  runs : store.RunsAlike instructions t
  mirrors : t.Mirrors more
  trees : trees <+: more
  last : t.TreeAt more t.expressions.length e.plain

lemma resolve_congr (hentries : t.entries = s.entries) (hexpressions : t.expressions = s.expressions)
    (n : Nat) : t.resolve n = s.resolve n := by
  have hindex : t.entryIndex? n = s.entryIndex? n := by
    cases n with
    | zero => rfl
    | succ n => rw [entryIndex?, entryIndex?, hexpressions]
  rw [resolve, resolve, entry?, entry?, hindex, hentries, hexpressions]

variable (make) in
/-- An instruction that makes the shape of an expression ends a list that builds the expression. -/
lemma exists_builds_of_makes {operation : Operation} {mid : List Regex}
    (hruns : store.RunsAlike is s) (hs : s.Mirrors mid) (hmid : trees <+: mid) (he : e.WellFormed)
    (hmakes : shape.Makes mid e.plain)
    (happly : ∀ (u : ExpressionStore) (text : Option String), u.entries = s.entries →
      u.expressions = s.expressions → u.apply ⟨operation, text⟩ =
        .ok (u.addShared (text.map Text.stripParentheses) shape make)) :
    ∃ t more, store.Builds trees (is ++ [⟨operation, some e.render⟩]) e t more := by
  have hknown : s.known? (some (Text.stripParentheses e.render)) shape = s.known? none shape := by
    rw [hs.known?_eq (names_render he) hmakes, hs.known?_eq names_none hmakes]
  obtain ⟨more, k, hgrown, hk, hmirrors, hexpressions⟩ := hs.addShared make (names_render he) hmakes
  have hmore : mid <+: more := by
    rcases hgrown with rfl | rfl
    · exact List.prefix_refl _
    · exact List.prefix_append _ _
  refine ⟨_, more, hruns.append (.single (happly s _ rfl rfl) ?_), hmirrors, hmid.trans hmore,
    treeAt_last hexpressions hk⟩
  exact (happly s.withoutTexts none rfl rfl).trans (congrArg _ (addShared_withoutTexts hknown))

/-- The operands of an operator with two operands are where its instruction expects them. -/
lemma Builds.operands {left right : Regex} {first second : List Instruction} {mid last : List Regex}
    (hleft : store.Builds trees first left s mid) (hright : s.Builds mid second right t last) :
    ∃ i A j B,
      t.resolve (store.expressions.length + first.length) = .ok (i, A) ∧
      t.resolve (store.expressions.length + first.length + second.length) = .ok (j, B) ∧
      last[i]? = some left.plain ∧ last[j]? = some right.plain := by
  obtain ⟨-, hlength⟩ := hleft.runs.expressions
  obtain ⟨hexpressions, hlength'⟩ := hright.runs.expressions
  rw [← hlength, ← hlength']
  obtain ⟨i, A, hi, hlefttree⟩ :=
    hright.mirrors.exists_resolve (hleft.last.mono hexpressions hright.trees)
  obtain ⟨j, B, hj, hrighttree⟩ := hright.mirrors.exists_resolve hright.last
  exact ⟨i, A, j, B, hi, hj, hlefttree, hrighttree⟩

lemma Builds.operand {inner : Regex} (h : store.Builds trees is inner t more) :
    ∃ i A, t.resolve (store.expressions.length + is.length) = .ok (i, A) ∧
      more[i]? = some inner.plain := by
  rw [← h.runs.expressions.2]
  exact h.mirrors.exists_resolve h.last

/-- The instruction of an operator with two operands, which makes its shape from their entries. -/
lemma Builds.exists_binary {left right : Regex} {first second : List Instruction}
    {mid last : List Regex} {operation : Operation} {shape : Nat → Nat → Shape}
    (make : Automaton → Automaton → LabelSupply → Automaton × LabelSupply)
    (hleft : store.Builds trees first left s mid) (hright : s.Builds mid second right t last)
    (he : e.WellFormed)
    (hmakes : ∀ {i j}, last[i]? = some left.plain → last[j]? = some right.plain →
      (shape i j).Makes last e.plain)
    (happly : ∀ (u : ExpressionStore) (text : Option String) {i A j B},
      u.resolve (store.expressions.length + first.length) = .ok (i, A) →
      u.resolve (store.expressions.length + first.length + second.length) = .ok (j, B) →
      u.apply ⟨operation, text⟩ =
        .ok (u.addShared (text.map Text.stripParentheses) (shape i j) (make A B))) :
    ∃ t more, store.Builds trees (first ++ second ++ [⟨operation, some e.render⟩]) e t more := by
  obtain ⟨i, A, j, B, hi, hj, hlefttree, hrighttree⟩ := hleft.operands hright
  refine exists_builds_of_makes (make A B) (hleft.runs.append hright.runs) hright.mirrors
    (hleft.trees.trans hright.trees) he (hmakes hlefttree hrighttree) ?_
  intro u text hentries hexpressions
  rw [← resolve_congr hentries hexpressions] at hi hj
  exact happly u text hi hj

/-- **The instructions of a well-formed expression build it from every store that mirrors trees**,
with or without their texts. -/
theorem exists_builds (he : e.WellFormed) (h : store.Mirrors trees) :
    ∃ t more, store.Builds trees (e.instructionsFrom store.expressions.length) e t more := by
  induction e generalizing store trees with
  | symbol c =>
      refine exists_builds_of_makes (fun supply => (Automaton.ofSymbol (String.singleton c), supply))
        (.nil store) h (List.prefix_refl trees) he (.symbol c) ?_
      intro u text _ _
      have hlength : (String.singleton c).length ≤ 1 := by simp
      exact apply_symbol_eq_ok_iff.2 ⟨hlength, rfl⟩
  | epsilon =>
      refine exists_builds_of_makes (fun supply => (Automaton.ofSymbol epsilon, supply))
        (.nil store) h (List.prefix_refl trees) he .epsilon ?_
      intro u text _ _
      exact apply_symbol_eq_ok_iff.2 ⟨by decide, rfl⟩
  | concat left right ihl ihr =>
      have hwell := he
      obtain ⟨⟨hl, -⟩, hr, -⟩ := hwell
      obtain ⟨s, mid, hleft⟩ := ihl hl h
      obtain ⟨t, last, hright⟩ := ihr hr hleft.mirrors
      rw [hleft.runs.expressions.2] at hright
      refine hleft.exists_binary Automaton.concat hright he .concat ?_
      intro u text i A j B hi hj
      exact apply_concat_eq_ok_iff.2 ⟨i, A, j, B, hi, hj, rfl⟩
  | union left right ihl ihr =>
      have hwell := he
      obtain ⟨hl, hr, -⟩ := hwell
      obtain ⟨s, mid, hleft⟩ := ihl hl h
      obtain ⟨t, last, hright⟩ := ihr hr hleft.mirrors
      rw [hleft.runs.expressions.2] at hright
      refine hleft.exists_binary Automaton.union hright he .union ?_
      intro u text i A j B hi hj
      exact apply_union_eq_ok_iff.2 ⟨i, A, j, B, hi, hj, rfl⟩
  | iterate operand ih =>
      obtain ⟨t, more, hoperand⟩ := ih he.1 h
      obtain ⟨i, A, hi, htree⟩ := hoperand.operand
      refine exists_builds_of_makes A.iterate hoperand.runs hoperand.mirrors hoperand.trees he
        (.iterate htree) ?_
      intro u text hentries hexpressions
      refine apply_iterate_eq_ok_iff.2 ⟨i, A, ?_, rfl⟩
      rwa [resolve_congr hentries hexpressions]
  | group inner ih =>
      -- a group adds an expression for the entry of what it holds, under its own text
      have hinner : inner.WellFormed := he
      obtain ⟨t, more, hbuilds⟩ := ih hinner h
      obtain ⟨i, A, hi, htree⟩ := hbuilds.operand
      refine ⟨t.addExpression (some (Text.stripParentheses (Regex.group inner).render)) i, more,
        hbuilds.runs.append (.single ?_ ?_), hbuilds.mirrors.addExpression (names_render he) htree, hbuilds.trees,
        treeAt_last rfl htree⟩
      · exact apply_identity_eq_ok_iff.2 ⟨i, A, hi, rfl⟩
      · refine apply_identity_eq_ok_iff.2 ⟨i, A, ?_, rfl⟩
        rwa [resolve_congr rfl rfl]

lemma exists_buildAll (he : e.WellFormed) :
    ∃ store trees, buildAll e.instructions = .ok store ∧
      buildAll (e.instructions.map Instruction.withoutText) = .ok store.withoutTexts ∧
      store.Mirrors trees ∧ store.TreeAt trees store.expressions.length e.plain := by
  obtain ⟨store, trees, hbuilds⟩ := exists_builds he mirrors_empty
  exact ⟨store, trees, hbuilds.runs.withTexts, hbuilds.runs.withoutTexts, hbuilds.mirrors,
    hbuilds.last⟩

/-- **The texts of the instructions make no difference.** Without them, the instructions of an
accepted text give every expression the same entry, and the entries have the same keys and the same
automata, labels included. -/
theorem buildAll_withoutText {text : String} {is : List Instruction}
    (h : Regex.listing text = .ok is) :
    ∃ store bare, buildAll is = .ok store ∧
      buildAll (is.map Instruction.withoutText) = .ok bare ∧
      store.expressions = bare.expressions ∧ store.keys = bare.keys ∧
      store.entries = bare.entries ∧ store.supply = bare.supply ∧
      ∀ number, store.automaton? number = bare.automaton? number := by
  obtain ⟨e, hparse, rfl⟩ := Regex.listing_eq_ok_iff.1 h
  obtain ⟨store, trees, hstore, hbare, -, -⟩ := exists_buildAll (Regex.wellFormed_of_parse hparse)
  refine ⟨store, store.withoutTexts, hstore, hbare, rfl, rfl, rfl, rfl, fun number => ?_⟩
  cases number with
  | zero => rfl
  | succ number => rfl

/-- An expression that is a group of a sequence or the same sequence again. -/
def repeated : Regex :=
  .union (.group (.concat (.symbol 'a') (.symbol 'b'))) (.concat (.symbol 'a') (.symbol 'b'))

theorem buildAll_withoutText_repeated :
    Regex.listing "(ab)|ab" = .ok repeated.instructions ∧
      ∃ store bare, buildAll repeated.instructions = .ok store ∧
        buildAll (repeated.instructions.map Instruction.withoutText) = .ok bare ∧
        store.expressions = bare.expressions ∧ store.keys = bare.keys ∧
        store.entries = bare.entries ∧ store.supply = bare.supply ∧
        ∀ number, store.automaton? number = bare.automaton? number :=
  have hlisting : Regex.listing "(ab)|ab" = .ok repeated.instructions := rfl
  ⟨hlisting, buildAll_withoutText hlisting⟩

end ExpressionStore

end FiniteAutomata
