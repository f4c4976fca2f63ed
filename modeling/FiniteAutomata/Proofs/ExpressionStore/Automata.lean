import FiniteAutomata.Proofs.Automaton.Joining
import FiniteAutomata.Proofs.Automaton.Trim
import FiniteAutomata.Proofs.ExpressionStore.Calls
import FiniteAutomata.Proofs.ExpressionStore.Files

/-!
# What the automata of a store are like

The automata of expressions are made from those of symbols by sequence, choice and repetition.  Whatever
these keep holds of every expression, however the store was asked for it: a misleading text can make an
expression refer to the automaton of another, and that one was made in the same way.

* `Sound.automaton?_succ` — every expression has an automaton, and it is that of an entry.
* `Made.trim` — the automata of all entries are trim.
* **`trim_after`** — every expression has a trim automaton, before and after determinizing it.
* **`namedByJoining_of_numbered`** — sets of states are named by joining labels, in all automata that
  can be built.
-/

namespace FiniteAutomata

variable {entries : List Entry} {supply : LabelSupply} {shape : Shape} {entry : Entry}
  {make : LabelSupply → Automaton × LabelSupply} {n : Nat}

/-- A shape makes a trim automaton from trim automata. -/
lemma Shape.Constructs.trim (h : shape.Constructs entries make)
    (hentries : ∀ entry ∈ entries, entry.automaton.Trim) : (make supply).1.Trim := by
  cases h with
  | symbol hs => exact Automaton.trim_ofSymbol _
  | concat hleft hright =>
      exact Automaton.trim_concat (hentries _ (List.mem_of_getElem? hleft))
        (hentries _ (List.mem_of_getElem? hright))
  | union hleft hright =>
      exact Automaton.trim_union (hentries _ (List.mem_of_getElem? hleft))
        (hentries _ (List.mem_of_getElem? hright))
  | iterate hoperand => exact Automaton.trim_iterate (hentries _ (List.mem_of_getElem? hoperand))

namespace ExpressionStore

variable {store : ExpressionStore} {A : Automaton}

/-! ## Expressions and entries -/

/-- The automaton of an expression is that of an entry. -/
lemma exists_entry_of_automaton? (h : store.automaton? n = some A) :
    ∃ entry ∈ store.entries, entry.automaton = A := by
  rw [automaton?_eq_bind, Option.bind_eq_some_iff] at h
  obtain ⟨k, -, hk⟩ := h
  rw [List.getElem?_map, Option.map_eq_some_iff] at hk
  obtain ⟨entry, hentry, rfl⟩ := hk
  exact ⟨entry, List.mem_of_getElem? hentry, rfl⟩

/-- Every expression has an automaton. -/
lemma Sound.exists_automaton? (h : store.Sound) (hn : n < store.expressions.length) :
    ∃ A, store.automaton? (n + 1) = some A := by
  have hindex : store.entryIndex? (n + 1) = some store.expressions[n] :=
    List.getElem?_eq_getElem hn
  rw [automaton?_eq_bind, hindex, Option.bind_some, List.getElem?_map,
    List.getElem?_eq_getElem (h.lt_length hindex)]
  exact ⟨_, rfl⟩

/-! ## Trim automata -/

/-- The automata of all entries are trim, since each is made from the ones before it. -/
lemma Made.trim (h : Made entries supply) : ∀ entry ∈ entries, entry.automaton.Trim := by
  induction h with
  | nil => simp
  | snoc before constructs new ih =>
      intro entry hentry
      rcases List.mem_append.1 hentry with hentry | hentry
      · exact ih entry hentry
      · obtain rfl := List.mem_singleton.1 hentry
        exact constructs.trim ih

/-- **Every expression has a trim automaton**, whatever the store was asked for before, and so is the
deterministic automaton for it. -/
theorem trim_after (calls : List Instruction) (hn : n < (after calls).expressions.length) :
    ∃ A, (after calls).automaton? (n + 1) = some A ∧ A.Trim ∧ A.determinize.Trim := by
  have hsound := sound_after calls
  obtain ⟨A, hA⟩ := hsound.exists_automaton? hn
  obtain ⟨entry, hentry, rfl⟩ := exists_entry_of_automaton? hA
  have htrim := hsound.made.trim entry hentry
  exact ⟨entry.automaton, hA, htrim, Automaton.trim_determinize htrim⟩

/-- A symbol, a sequence with an expression that is not there, a choice under the text of the symbol, and
the repetition of what came of that. -/
def misleading : List Instruction :=
  [⟨.symbol "a", some "a"⟩, ⟨.concat 1 7, some "aa"⟩, ⟨.union 1 1, some "(a)"⟩, ⟨.iterate 2, none⟩]

theorem trim_after_misleading : 2 < (after misleading).expressions.length ∧
    ∃ A, (after misleading).automaton? 3 = some A ∧ A.Trim ∧ A.determinize.Trim :=
  have hn : 2 < (after misleading).expressions.length := by decide
  ⟨hn, trim_after misleading hn⟩

/-! ## Labels -/

lemma Sound.numbered (h : store.Sound) (hA : store.automaton? n = some A) : A.Numbered := by
  obtain ⟨entry, hentry, rfl⟩ := exists_entry_of_automaton? hA
  exact fun q hq => h.label_of_hasState hentry hq

lemma sound_of_ofRegex {text : String} (h : ofRegex text = .ok store) : store.Sound := by
  obtain ⟨e, -, hbuild⟩ := bind_eq_ok_iff.1 h
  cases hstore : buildAll e.instructions with
  | error failure => simp [hstore, Except.mapError] at hbuild
  | ok t =>
      obtain rfl : t = store := by simpa [hstore, Except.mapError] using hbuild
      exact sound_of_buildAll hstore

/-- **Sets of states are named by joining their labels**, without a clash and hence without a prime, if
the labels are like those of a supply; and they are in the automata to begin with, in all combinations,
whatever is combined, and in the automata of expressions, whatever the store was asked for and whatever
regular expression it comes from. -/
theorem namedByJoining_of_numbered :
    (∀ A : Automaton, A.Numbered → A.NamedByJoining) ∧
      Automaton.ofNothing.Numbered ∧ Automaton.ofEmptyWord.Numbered ∧
      (∀ s : Symbol, (Automaton.ofSymbol s).Numbered) ∧
      (∀ (symbols : SortedSet Symbol) (A : Automaton),
        Automaton.ofSymbols? symbols = some A → A.Numbered) ∧
      (∀ (A B : Automaton) (supply : LabelSupply), (A.concat B supply).1.Numbered ∧
        (A.union B supply).1.Numbered ∧ (A.iterate supply).1.Numbered) ∧
      (∀ (calls : List Instruction) (n : Nat) (A : Automaton),
        (after calls).automaton? n = some A → A.Numbered) ∧
      ∀ (text : String) (store : ExpressionStore) (n : Nat) (A : Automaton),
        ofRegex text = .ok store → store.automaton? n = some A → A.Numbered :=
  ⟨fun _ h => h.namedByJoining, Automaton.numbered_ofNothing, Automaton.numbered_ofEmptyWord,
    fun _ => Automaton.numbered_ofSymbol, fun _ _ => Automaton.numbered_ofSymbols?,
    fun _ _ _ => ⟨Automaton.numbered_concat, Automaton.numbered_union, Automaton.numbered_iterate⟩,
    fun calls _ _ => (sound_after calls).numbered, fun _ _ _ _ h => (sound_of_ofRegex h).numbered⟩

/-- From `q1` there are edges with `a` to `q2` and `q10`, which stand in a set in the other order. -/
def branching : Automaton :=
  (((Automaton.blank .nondeterministic).addSymbol "a").addStates
    [(LabelSupply.label 1, .onlyInitial), (LabelSupply.label 2, .onlyFinal),
      (LabelSupply.label 10, .onlyFinal)]).addEdges
    [⟨LabelSupply.label 1, "a", LabelSupply.label 2⟩, ⟨LabelSupply.label 1, "a", LabelSupply.label 10⟩]

theorem namedByJoining_branching :
    (branching.Numbered ∧ branching.NamedByJoining ∧ branching.names.map (·.2) = ["q1", "q10q2"]) ∧
      (∃ A, Automaton.ofSymbols? (.ofList ["a"]) = some A ∧ A.Numbered) ∧
      (∃ A, (after misleading).automaton? 3 = some A ∧ A.Numbered) ∧
      ∃ store A, ofRegex "(ab)|ab" = .ok store ∧ store.automaton? 2 = some A ∧ A.Numbered := by
  have hnumbered : branching.Numbered := by
    intro q hq
    have hkeys : branching.states.keys.toList = [1, 10, 2].map LabelSupply.label := rfl
    obtain ⟨n, -, rfl⟩ := List.mem_map.1 (hkeys ▸ Automaton.mem_keys_toList.2 hq)
    exact ⟨n, rfl⟩
  obtain ⟨hnamed, -, -, -, hsymbols, -, hcalls, hregex⟩ := namedByJoining_of_numbered
  exact ⟨⟨hnumbered, hnamed branching hnumbered, rfl⟩, ⟨_, rfl, hsymbols (.ofList ["a"]) _ rfl⟩,
    ⟨_, rfl, hcalls misleading 3 _ rfl⟩, ⟨_, _, rfl, rfl, hregex "(ab)|ab" _ 2 _ rfl rfl⟩⟩

end ExpressionStore

end FiniteAutomata
