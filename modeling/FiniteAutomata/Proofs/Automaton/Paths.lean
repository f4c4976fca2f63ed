import FiniteAutomata.Proofs.Automaton.Reachable

/-!
# Paths, and the two ways to decide a word

A path is a list of edges, each of which begins where the one before it ends, and along it the symbols
spell a text.  The simulation accepts a word exactly if a path from an initial to a final state spells
it, with edges on `epsilon` wherever they are needed and without edges on longer symbols.  It does not
matter whether the simulation gives up as soon as no state is left or goes on to the end of the word.

The walk follows a single path, so what it accepts the simulation accepts as well, whatever the
automaton looks like.  In a deterministic automaton with at most one initial state there is no other
path to follow, and the two verdicts are the same.

* `IsPath`, `spelled`, **`run_iff_exists_path`** — paths, and the runs that follow them.
* **`accepts_iff_exists_path`** — the simulation decides whether there is a path.
* `walk?_of_run` — in a deterministic automaton the walk is the only run.
* **`walks_agrees_with_accepts`** — how the two verdicts are related.
-/

namespace FiniteAutomata.Automaton

variable {A : Automaton} {S : StateSet} {q t : Label} {s : Symbol} {u w : List Char} {e : Edge}
  {path : List Edge} {word : String}

/-! ## Paths -/

/-- The edges lead from the first state to the last: each begins where the one before it ends. -/
def IsPath (A : Automaton) : Label → List Edge → Label → Prop
  | q, [], t => q = t
  | q, e :: path, t => e ∈ A.edges ∧ e.source = q ∧ A.IsPath e.target path t

/-- The symbols along a path, one behind the other. -/
def spelled (path : List Edge) : String := String.join (path.map (·.symbol))

/-- A symbol that can be read: nothing, or a single character. -/
def IsReadable (s : Symbol) : Prop := s = epsilon ∨ ∃ c, s = String.singleton c

lemma toList_spelled_cons : (spelled (e :: path)).toList = e.symbol.toList ++ (spelled path).toList := by
  simp [spelled, String.toList_join]

/-- What is read along an edge is its symbol. -/
lemma reads_iff : Reads s u ↔ IsReadable s ∧ u = s.toList := by
  constructor
  · intro reads
    cases reads with
    | nothing => exact ⟨.inl rfl, rfl⟩
    | character c => exact ⟨.inr ⟨c, rfl⟩, (String.toList_singleton c).symm⟩
  · rintro ⟨rfl | ⟨c, rfl⟩, rfl⟩
    · exact .nothing
    · rw [String.toList_singleton]
      exact .character c

/-- **A run follows a path of readable symbols and reads what the path spells.** -/
theorem run_iff_exists_path :
    A.Run q w t ↔
      ∃ path, A.IsPath q path t ∧ (∀ e ∈ path, IsReadable e.symbol) ∧ (spelled path).toList = w := by
  constructor
  · intro run
    induction run with
    | refl q => exact ⟨[], rfl, List.forall_mem_nil _, rfl⟩
    | @step q p t s u w edge reads _ ih =>
        obtain ⟨path, hpath, hreadable, rfl⟩ := ih
        obtain ⟨hsymbol, rfl⟩ := reads_iff.1 reads
        exact ⟨⟨q, s, p⟩ :: path, ⟨edge, rfl, hpath⟩, List.forall_mem_cons.2 ⟨hsymbol, hreadable⟩,
          toList_spelled_cons⟩
  · rintro ⟨path, hpath, hreadable, rfl⟩
    induction path generalizing q with
    | nil =>
        obtain rfl := hpath
        exact .refl q
    | cons e path ih =>
        obtain ⟨edge, rfl, hrest⟩ := hpath
        obtain ⟨hsymbol, hreadable⟩ := List.forall_mem_cons.1 hreadable
        rw [toList_spelled_cons]
        exact .step edge (reads_iff.2 ⟨hsymbol, rfl⟩) (ih hrest hreadable)

/-! ## The simulation -/

/-- The verdict of a simulation that gives up as soon as no state is left. -/
def acceptsUntilEmpty (A : Automaton) (S : StateSet) : List Char → Bool
  | [] => A.hasFinal S
  | c :: word =>
    if S.isEmpty then false else A.acceptsUntilEmpty (A.advance S (String.singleton c)) word

/-- Where no state is left, none will be at the end. -/
lemma acceptsUntilEmpty_eq : A.acceptsUntilEmpty S w = A.hasFinal (A.reach S w) := by
  induction w generalizing S with
  | nil => rfl
  | cons c w ih =>
      rw [acceptsUntilEmpty]
      split_ifs with hempty
      · exact (hasFinal_reach_of_isEmpty hempty).symm
      · rw [ih, reach_cons]

/-- **The simulation accepts a word if a path spells it** that leads from an initial to a final state and
on which every symbol is `epsilon` or a single character.  Giving up early makes no difference. -/
theorem accepts_iff_exists_path (A : Automaton) (word : String) :
    (A.accepts word = true ↔
      ∃ q ∈ A.initial, ∃ t ∈ A.final, ∃ path, A.IsPath q path t ∧
        (∀ e ∈ path, IsReadable e.symbol) ∧ spelled path = word) ∧
    A.acceptsUntilEmpty A.start word.toList = A.accepts word := by
  refine ⟨?_, acceptsUntilEmpty_eq⟩
  rw [accepts_iff_mem_language]
  simp only [mem_language, mem_languageFrom, run_iff_exists_path, String.toList_inj]

/-! ## The walk -/

/-- In a deterministic automaton the walk takes the same edges as any run on the word. -/
lemma walk?_of_run (hdet : A.isDeterministic = true) (run : A.Run q w t) : A.walk? q w = some t := by
  induction run with
  | refl q => rfl
  | @step q p t s u w edge reads _ ih =>
      cases reads with
      | nothing => exact absurd rfl (symbol_ne_epsilon hdet edge)
      | character c =>
          refine walk?_cons_eq_some_iff.2 ⟨p, next?_eq_some_iff.2 fun r => ?_, ih⟩
          exact ⟨fun hr => target_unique hdet hr edge, fun h => h ▸ edge⟩

/-! ## The two verdicts -/

theorem accepts_of_walks (h : A.walks word = true) : A.accepts word = true := by
  obtain ⟨q, hq, t, ht, hwalk⟩ := walks_iff.1 h
  exact accepts_iff_mem_language.2 ⟨q, (hq q).2 rfl, t, ht, run_of_walk? hwalk⟩

theorem walks_of_accepts (hdet : A.isDeterministic = true) (hinitial : A.initial.size ≤ 1)
    (h : A.accepts word = true) : A.walks word = true := by
  obtain ⟨q, hq, t, ht, run⟩ := accepts_iff_mem_language.1 h
  have honly : ∀ r, r ∈ A.initial ↔ r = q := fun r =>
    ⟨eq_of_size_le_one hinitial hq, fun h => h ▸ hq⟩
  exact walks_iff.2 ⟨q, honly, t, ht, walk?_of_run hdet run⟩

/-- **The walk accepts nothing that the simulation rejects**, and in a deterministic automaton with at most
one initial state the two give the same verdict on every word. -/
theorem walks_agrees_with_accepts (A : Automaton) (word : String) :
    (A.isDeterministic = true → A.initial.size ≤ 1 → A.walks word = A.accepts word) ∧
    (A.walks word = true → A.accepts word = true) := by
  refine ⟨fun hdet hinitial => Bool.eq_iff_iff.2 ?_, accepts_of_walks⟩
  exact ⟨accepts_of_walks, walks_of_accepts hdet hinitial⟩

/-- A deterministic automaton in which a symbol of two characters spells a word that must be read in two
steps. -/
def longSymbol : Automaton :=
  build .deterministic [.state "p" .onlyInitial false, .state "q" .empty false,
    .state "r" .onlyFinal false, .symbol "a", .symbol "b", .symbol "ab", .edge ⟨"p", "a", "q"⟩,
    .edge ⟨"q", "b", "r"⟩, .edge ⟨"p", "ab", "p"⟩]

/-- An automaton with edges on `epsilon` to and fro, of which the walk takes no notice. -/
def detour : Automaton :=
  build .nondeterministic [.state "p" .onlyInitial false, .state "q" .onlyFinal false, .symbol "a",
    .edge ⟨"p", "a", "q"⟩, .edge ⟨"p", "", "q"⟩, .edge ⟨"q", "", "p"⟩]

theorem walks_agrees_with_accepts_detour :
    (longSymbol.isDeterministic = true ∧ longSymbol.initial.size ≤ 1 ∧
      longSymbol.walks "ab" = longSymbol.accepts "ab") ∧
    detour.isDeterministic = false ∧ detour.walks "a" = true ∧ detour.accepts "a" = true := by
  have hdet : longSymbol.isDeterministic = true := by decide
  have hinitial : longSymbol.initial.size ≤ 1 := by decide
  have hwalks : detour.walks "a" = true := by decide
  exact ⟨⟨hdet, hinitial, (walks_agrees_with_accepts longSymbol "ab").1 hdet hinitial⟩, by decide,
    hwalks, (walks_agrees_with_accepts detour "a").2 hwalks⟩

end FiniteAutomata.Automaton
