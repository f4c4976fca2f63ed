import FiniteAutomata.ExpressionStore.OfText
import FiniteAutomata.Proofs.Automaton.Determinize
import FiniteAutomata.Proofs.Automaton.Labels
import FiniteAutomata.Proofs.ExpressionStore.Trees

/-!
# The automaton of a regular expression

The automaton of an entry is made in the way of its shape, and the same shape makes its tree, so by
induction over the tree the automaton has the language and the symbols of the tree.  The last expression
of a text is the tree of the text, and determinizing does not change the language.

* **`Sound.induction`** — from symbols and combinations to entries and their trees.
* `Sound.language_eq`, `Sound.mem_alphabet_iff` — an entry has the language and the symbols of its tree.
* `exists_ofRegex` — every accepted text leads to an entry for its tree.
* `walks_determinize_iff_mem_language` — from a text to the verdict on a word.
-/

namespace FiniteAutomata.ExpressionStore

variable {store : ExpressionStore} {trees : List Regex} {tree e : Regex} {k : Nat} {entry : Entry}

lemma Sound.exists_constructs (hsound : store.Sound) (h : store.Mirrors trees)
    (htree : trees[k]? = some tree) (hentry : store.entries[k]? = some entry) :
    ∃ (shape : Shape) (make : LabelSupply → Automaton × LabelSupply) (supply : LabelSupply),
      shape.Makes trees tree ∧ shape.Constructs store.entries make ∧
        entry.automaton = (make supply).1 := by
  obtain ⟨make, supply, hconstructs, hautomaton⟩ := hsound.made.exists_constructs hentry
  exact ⟨entry.shape, make, supply, h.makes k entry tree hentry htree,
    hconstructs.mono (List.take_prefix k store.entries), hautomaton⟩

/-- **What combining automata keeps is true of every entry and its tree**, if it is true of the automata of
symbols. In every case there is one shape that makes the tree, and its operands have smaller trees. -/
theorem Sound.induction {P : Regex → Automaton → Prop} (hsound : store.Sound) (h : store.Mirrors trees)
    (symbol : ∀ c, P (.symbol c) (.ofSymbol (String.singleton c)))
    (epsilon : P .epsilon (.ofSymbol FiniteAutomata.epsilon))
    (concat : ∀ {left right A B} (supply), P left A → P right B →
      P (.concat left right) (A.concat B supply).1)
    (union : ∀ {left right A B} (supply), P left A → P right B →
      P (.union left right) (A.union B supply).1)
    (iterate : ∀ {operand A} (supply), P operand A → P (.iterate operand) (A.iterate supply).1)
    (htree : trees[k]? = some tree) (hentry : store.entries[k]? = some entry) :
    P tree entry.automaton := by
  induction tree generalizing k entry with
  | symbol c =>
      obtain ⟨_, _, supply, ⟨⟩, ⟨⟩, hA⟩ := hsound.exists_constructs h htree hentry
      exact hA ▸ symbol c
  | epsilon =>
      obtain ⟨_, _, supply, ⟨⟩, ⟨⟩, hA⟩ := hsound.exists_constructs h htree hentry
      exact hA ▸ epsilon
  | concat left right ihl ihr =>
      obtain ⟨_, _, supply, hmakes, hconstructs, hA⟩ := hsound.exists_constructs h htree hentry
      cases hmakes with
      | concat hleft hright =>
          cases hconstructs with
          | concat hi hj => exact hA ▸ concat supply (ihl hleft hi) (ihr hright hj)
  | union left right ihl ihr =>
      obtain ⟨_, _, supply, hmakes, hconstructs, hA⟩ := hsound.exists_constructs h htree hentry
      cases hmakes with
      | union hleft hright =>
          cases hconstructs with
          | union hi hj => exact hA ▸ union supply (ihl hleft hi) (ihr hright hj)
  | iterate operand ih =>
      obtain ⟨_, _, supply, hmakes, hconstructs, hA⟩ := hsound.exists_constructs h htree hentry
      cases hmakes with
      | iterate hoperand =>
          cases hconstructs with
          | iterate hi => exact hA ▸ iterate supply (ih hoperand hi)
  | group inner ih =>
      obtain ⟨_, _, _, hmakes, -, -⟩ := hsound.exists_constructs h htree hentry
      cases hmakes

/-- **An entry has the language of its tree.** -/
theorem Sound.language_eq (hsound : store.Sound) (h : store.Mirrors trees)
    (htree : trees[k]? = some tree) (hentry : store.entries[k]? = some entry) :
    entry.automaton.language = tree.language := by
  refine hsound.induction (P := fun tree A => A.language = tree.language) h ?_ ?_ ?_ ?_ ?_ htree hentry
  · intro c
    ext w
    rw [Automaton.mem_language_ofSymbol]
    exact ⟨Automaton.Reads.eq_singleton, fun hw => Set.mem_singleton_iff.1 hw ▸ .character c⟩
  · ext w
    rw [Automaton.mem_language_ofSymbol]
    exact ⟨Automaton.Reads.eq_nil, fun hw => Set.mem_singleton_iff.1 hw ▸ .nothing⟩
  · intro left right A B supply hleft hright
    rw [Automaton.language_concat, hleft, hright, Regex.language]
  · intro left right A B supply hleft hright
    rw [Automaton.language_union, hleft, hright, Regex.language]
  · intro operand A supply hoperand
    rw [Automaton.language_iterate, hoperand, Regex.language]

/-- **An entry has the symbols of its tree.** -/
theorem Sound.mem_alphabet_iff (hsound : store.Sound) (h : store.Mirrors trees)
    (htree : trees[k]? = some tree) (hentry : store.entries[k]? = some entry) {s : Symbol} :
    s ∈ entry.automaton.alphabet ↔ s = epsilon ∨ s ∈ tree.symbols.map String.singleton := by
  refine hsound.induction (P := fun tree A => s ∈ A.alphabet ↔
    s = epsilon ∨ s ∈ tree.symbols.map String.singleton) h ?_ ?_ ?_ ?_ ?_ htree hentry
  · intro c
    rw [Automaton.mem_alphabet_ofSymbol]
    simp [Regex.symbols, or_comm]
  · rw [Automaton.mem_alphabet_ofSymbol]
    simp [Regex.symbols]
  · intro left right A B supply hleft hright
    rw [Automaton.mem_alphabet_concat, hleft, hright, Regex.symbols, List.map_append, List.mem_append]
    tauto
  · intro left right A B supply hleft hright
    rw [Automaton.mem_alphabet_union, hleft, hright, Regex.symbols, List.map_append, List.mem_append]
    tauto
  · intro operand A supply hoperand
    rw [Automaton.mem_alphabet_iterate, hoperand, Regex.symbols]
    tauto

/-- The expressions of an accepted text can be built, and the last one has the tree of the text. -/
lemma exists_ofRegex {text : String} (h : Regex.parse text = .ok e) :
    ∃ (store : ExpressionStore) (trees : List Regex) (k : Nat) (entry : Entry),
      ofRegex text = .ok store ∧ store.final? = some entry.automaton ∧ store.Sound ∧
        store.Mirrors trees ∧ trees[k]? = some e.plain ∧ store.entries[k]? = some entry := by
  obtain ⟨store, trees, hstore, -, hmirrors, hlast⟩ := exists_buildAll (Regex.wellFormed_of_parse h)
  obtain ⟨k, hindex, htree⟩ := hlast
  obtain ⟨entry, hentry, -⟩ := hmirrors.exists_entry htree
  refine ⟨store, trees, k, entry, ?_, ?_, sound_of_buildAll hstore, hmirrors, htree, hentry⟩
  · rw [ofRegex, h]
    change (buildAll e.instructions).mapError _ = _
    rw [hstore]
    rfl
  · rw [final?, automaton?, entry?_eq_some_iff.2 ⟨hindex, hentry⟩]
    rfl

/-- **From a text to the verdict on a word.** Every accepted text is the text of exactly one
well-formed tree; its expressions can be built, the last one is there, and the deterministic automaton
for it takes exactly the words of the tree. -/
theorem walks_determinize_iff_mem_language {text : String} (h : Regex.parse text = .ok e) :
    (e.WellFormed ∧ e.render = text ∧ ∀ d : Regex, d.WellFormed → d.render = text → d = e) ∧
      ∃ store A, ofRegex text = .ok store ∧ store.final? = some A ∧
        ∀ word : String, A.determinize.walks word = true ↔ word.toList ∈ e.language := by
  have he := Regex.wellFormed_of_parse h
  have hrender := Regex.render_of_parse h
  obtain ⟨store, trees, k, entry, hstore, hfinal, hsound, hmirrors, htree, hentry⟩ :=
    exists_ofRegex h
  refine ⟨⟨he, hrender, fun d hd hd' => Regex.eq_of_render_eq hd he (hd'.trans hrender.symm)⟩,
    store, entry.automaton, hstore, hfinal, fun word => ?_⟩
  rw [Automaton.walks_determinize_iff, hsound.language_eq hmirrors htree hentry,
    Regex.language_plain]

theorem walks_determinize_repeated :
    Regex.parse "(ab)|ab" = .ok repeated ∧
      (repeated.WellFormed ∧ repeated.render = "(ab)|ab" ∧
        ∀ d : Regex, d.WellFormed → d.render = "(ab)|ab" → d = repeated) ∧
      ∃ store A, ofRegex "(ab)|ab" = .ok store ∧ store.final? = some A ∧
        ∀ word : String, A.determinize.walks word = true ↔ word.toList ∈ repeated.language :=
  have hparse : Regex.parse "(ab)|ab" = .ok repeated := rfl
  ⟨hparse, walks_determinize_iff_mem_language hparse⟩

end FiniteAutomata.ExpressionStore
