import FiniteAutomata.Proofs.Automaton.Naming
import FiniteAutomata.Proofs.Automaton.Runs

/-!
# The deterministic automaton decides the same words

First what the deterministic automaton consists of: a state for every set of the exploration, under
its name, and an edge for every move.  From then on only sets matter.  The walk from the name of a
set goes through the names of the sets that the simulation passes through, until the simulation has
no states left; then the walk has no next state.

* `alphabet_determinize`, `get?_determinize`, `mem_edges_determinize` — what it consists of.
* `isDeterministic_determinize` — at most one edge leaves a state with a symbol.
* `next?_determinize` — one step of the walk against one step of the simulation.
* `walks_determinize_iff` — the verdict of the walk.
* **`walks_determinize_eq_accepts`** — the walk and the simulation agree on every word.
-/

namespace FiniteAutomata.Automaton

variable {A : Automaton} {S T : StateSet} {q t : Label} {s : Symbol} {f : Flags} {e : Edge}

/-! ## What the automaton consists of -/

/-- The marks of the state that stands for a set. -/
def setFlags (A : Automaton) (S : StateSet) : Flags := ⟨S == A.start, A.hasFinal S⟩

/-- The states of the deterministic automaton, in the order in which the sets were found. -/
def setStates (A : Automaton) : List (Label × Flags) :=
  A.names.map fun p => (p.2, A.setFlags p.1)

/-- The edges of the deterministic automaton, in the order in which the moves were found. -/
def setEdges (A : Automaton) : List Edge :=
  A.exploration.expanded.flatMap fun p =>
    p.2.map fun m => ⟨A.setLabel p.1, m.1, A.setLabel m.2⟩

lemma determinize_eq (A : Automaton) :
    A.determinize =
      (((blank .deterministic).addSymbols A.letters.toList).addStates A.setStates).addEdges
        A.setEdges := rfl

/-- The alphabet is that of the automaton without `epsilon`. -/
lemma alphabet_determinize : A.determinize.alphabet = A.letters := by
  refine SortedSet.ext fun s => ?_
  rw [determinize_eq, alphabet_addEdges, alphabet_addStates, mem_addSymbols]
  exact or_iff_left (SortedSet.not_mem_empty s)

lemma letters_determinize : A.determinize.letters = A.letters := by
  refine SortedSet.ext fun s => ?_
  rw [mem_letters, alphabet_determinize, mem_letters]
  tauto

lemma mem_setStates :
    (q, f) ∈ A.setStates ↔ ∃ S, A.Discovered S ∧ q = A.setLabel S ∧ f = A.setFlags S := by
  rw [setStates, List.mem_map]
  constructor
  · rintro ⟨⟨S, label⟩, hmem, h⟩
    obtain ⟨hS, rfl⟩ := mem_names.1 hmem
    obtain ⟨rfl, rfl⟩ := Prod.mk.inj h
    exact ⟨S, hS, rfl, rfl⟩
  · rintro ⟨S, hS, rfl, rfl⟩
    exact ⟨(S, A.setLabel S), mem_names.2 ⟨hS, rfl⟩, rfl⟩

lemma nodup_map_fst_setStates : (A.setStates.map (·.1)).Nodup := by
  rw [setStates, List.map_map]
  exact nodup_map_snd_nameSets _

/-- **The states are the names of the sets**, each with the marks of its set. -/
theorem get?_determinize :
    A.determinize.states.get? q = some f ↔
      ∃ S, A.Discovered S ∧ q = A.setLabel S ∧ f = A.setFlags S := by
  rw [determinize_eq, states_addEdges, get?_addStates, states_addSymbols]
  change (none : Option Flags).or _ = some f ↔ _
  rw [Option.none_or, lookup_eq_some_iff_mem nodup_map_fst_setStates, mem_setStates]

lemma hasState_determinize :
    A.determinize.hasState q = true ↔ ∃ S, A.Discovered S ∧ q = A.setLabel S := by
  simp only [hasState_iff, get?_determinize]
  constructor
  · rintro ⟨f, S, hS, hq, _⟩
    exact ⟨S, hS, hq⟩
  · rintro ⟨S, hS, hq⟩
    exact ⟨_, S, hS, hq, rfl⟩

lemma mem_setEdges :
    e ∈ A.setEdges ↔
      ∃ S s T, A.Discovered S ∧ (s, T) ∈ A.successors S ∧ e = ⟨A.setLabel S, s, A.setLabel T⟩ := by
  simp only [setEdges, List.mem_flatMap, List.mem_map]
  constructor
  · rintro ⟨⟨S, moves⟩, hS, ⟨s, T⟩, hmove, rfl⟩
    obtain ⟨hfound, rfl⟩ := mem_exploration_expanded.1 hS
    exact ⟨S, s, T, hfound, hmove, rfl⟩
  · rintro ⟨S, s, T, hfound, hmove, rfl⟩
    exact ⟨(S, A.successors S), mem_exploration_expanded.2 ⟨hfound, rfl⟩, (s, T), hmove, rfl⟩

/-- **The edges are the moves between the sets.**  None is rejected, because both sets have names
and the symbol is a letter. -/
theorem mem_edges_determinize :
    e ∈ A.determinize.edges ↔
      ∃ S s T, A.Discovered S ∧ (s, T) ∈ A.successors S ∧ e = ⟨A.setLabel S, s, A.setLabel T⟩ := by
  rw [determinize_eq, mem_addEdges, mem_setEdges, edges_addStates, edges_addSymbols]
  refine ⟨fun h => (h.resolve_right (SortedSet.not_mem_empty e)).1, fun h => .inl ⟨h, ?_⟩⟩
  obtain ⟨S, s, T, hS, hmove, rfl⟩ := h
  have hstate : ∀ {R}, A.Discovered R → (((blank .deterministic).addSymbols
      A.letters.toList).addStates A.setStates).hasState (A.setLabel R) = true := by
    intro R hR
    refine hasState_iff.2 ⟨A.setFlags R, ?_⟩
    rw [← @states_addEdges _ A.setEdges, ← determinize_eq, get?_determinize]
    exact ⟨R, hR, rfl, rfl⟩
  refine knows_iff.2 ⟨hstate hS, ?_, hstate (.move hS hmove)⟩
  rw [alphabet_addStates, mem_addSymbols]
  exact .inl (mem_successors.1 hmove).1

/-! ## One step of the walk -/

lemma mem_initial_determinize : q ∈ A.determinize.initial ↔ q = A.setLabel A.start := by
  rw [mem_initial]
  constructor
  · rintro ⟨f, hf, hinitial⟩
    obtain ⟨S, -, rfl, rfl⟩ := get?_determinize.1 hf
    rw [show S = A.start by simpa [setFlags] using hinitial]
  · rintro rfl
    exact ⟨_, get?_determinize.2 ⟨A.start, .start, rfl, rfl⟩, by simp [setFlags]⟩

lemma isFinal_determinize (hS : A.Discovered S) :
    A.determinize.isFinal (A.setLabel S) = A.hasFinal S := by
  rw [isFinal, flags?, get?_determinize.2 ⟨S, hS, rfl, rfl⟩]
  rfl

lemma setLabel_mem_initial_iff (hS : A.Discovered S) :
    A.setLabel S ∈ A.determinize.initial ↔ S = A.start := by
  rw [mem_initial_determinize]
  exact ⟨setLabel_injective hS .start, congrArg _⟩

lemma setLabel_mem_final_iff (hS : A.Discovered S) :
    A.setLabel S ∈ A.determinize.final ↔ ∃ q ∈ S, q ∈ A.final := by
  rw [← isFinal_iff_mem_final, isFinal_determinize hS, hasFinal_iff]

/-- Only the name of the set that the simulation comes to is a target. -/
lemma mem_targets_determinize (hS : A.Discovered S) :
    t ∈ A.determinize.targets (A.setLabel S) s ↔
      (s, A.advance S s) ∈ A.successors S ∧ t = A.setLabel (A.advance S s) := by
  rw [mem_targets, mem_edges_determinize]
  constructor
  · rintro ⟨S', s', T, hS', hmove, h⟩
    obtain ⟨hlabel, rfl, rfl⟩ := Edge.mk.inj h
    obtain rfl := setLabel_injective hS hS' hlabel
    obtain ⟨-, rfl, -⟩ := mem_successors.1 hmove
    exact ⟨hmove, rfl⟩
  · rintro ⟨hmove, rfl⟩
    exact ⟨S, s, _, hS, hmove, rfl⟩

lemma eq_of_size_le_one (hsize : S.size ≤ 1) (hq : q ∈ S) (ht : t ∈ S) : t = q := by
  have hone : S.toList.toFinset.card ≤ 1 := (List.toFinset_card_le _).trans hsize
  exact Finset.card_le_one.1 hone t (List.mem_toFinset.2 ht) q (List.mem_toFinset.2 hq)

/-- No edge of a deterministic automaton is on `epsilon`, and no two edges leave a state with the same
symbol. -/
lemma isDeterministic_iff :
    A.isDeterministic = true ↔ ∀ q s t, ⟨q, s, t⟩ ∈ A.edges →
      s ≠ epsilon ∧ ∀ t', ⟨q, s, t'⟩ ∈ A.edges → t' = t := by
  simp only [isDeterministic, List.all_eq_true, Bool.and_eq_true, bne_iff_ne, decide_eq_true_eq]
  constructor
  · intro h q s t ht
    obtain ⟨hsymbol, hsize⟩ := h _ ht
    exact ⟨hsymbol, fun t' ht' => eq_of_size_le_one hsize (mem_targets.2 ht) (mem_targets.2 ht')⟩
  · rintro h ⟨q, s, t⟩ ht
    obtain ⟨hsymbol, hunique⟩ := h q s t ht
    have htargets : (A.targets q s).toList = [t] := toList_eq_singleton fun t' =>
      mem_targets.trans ⟨hunique t', fun heq => heq ▸ ht⟩
    refine ⟨hsymbol, ?_⟩
    rw [SortedSet.size, htargets, List.length_singleton]

/-- **The result is deterministic.** -/
theorem isDeterministic_determinize (A : Automaton) : A.determinize.isDeterministic = true := by
  rw [isDeterministic_iff]
  intro q s t ht
  obtain ⟨S, s', T, hS, hmove, hedge⟩ := mem_edges_determinize.1 ht
  obtain ⟨rfl, rfl, -⟩ := Edge.mk.inj hedge
  have htarget {t' : Label} (ht' : ⟨A.setLabel S, s, t'⟩ ∈ A.determinize.edges) :
      t' = A.setLabel (A.advance S s) :=
    ((mem_targets_determinize hS).1 (mem_targets.2 ht')).2
  exact ⟨(mem_letters.1 (mem_successors.1 hmove).1).2, fun t' ht' =>
    (htarget ht').trans (htarget ht).symm⟩

lemma uniqueInitial?_determinize :
    A.determinize.uniqueInitial? = some (A.setLabel A.start) :=
  uniqueInitial?_eq_some_iff.2 fun _ => mem_initial_determinize

/-- A symbol on which the simulation can go on is a letter. -/
lemma mem_successors_of_mem_advance {c : Char} (h : t ∈ A.advance S (String.singleton c)) :
    (String.singleton c, A.advance S (String.singleton c)) ∈ A.successors S := by
  obtain ⟨q, -, p, edge, -⟩ := mem_advance.1 h
  refine mem_successors.2 ⟨mem_letters.2 ⟨?_, ?_⟩, rfl, t, h⟩
  · exact SortedSet.contains_iff_mem.1 (A.known _ edge).1.2
  · exact fun hc => by simpa [epsilon] using congrArg String.length hc

/-- The walk goes on as long as the simulation has states left. -/
lemma next?_determinize (hS : A.Discovered S) (c : Char) :
    A.determinize.next? (A.setLabel S) c =
      if (A.advance S (String.singleton c)).isEmpty then none
      else some (A.setLabel (A.advance S (String.singleton c))) := by
  rw [next?]
  split_ifs with hempty
  · have hnone : (A.determinize.targets (A.setLabel S) (String.singleton c)).toList = [] := by
      refine List.eq_nil_iff_forall_not_mem.2 fun t ht => ?_
      obtain ⟨-, -, r, hr⟩ := mem_successors.1 ((mem_targets_determinize hS).1 ht).1
      exact SortedSet.isEmpty_iff.1 hempty r hr
    rw [hnone]
  · rw [SortedSet.isEmpty_iff] at hempty
    push Not at hempty
    obtain ⟨r, hr⟩ := hempty
    have hmove := mem_successors_of_mem_advance hr
    rw [toList_eq_singleton fun t => (mem_targets_determinize hS).trans (and_iff_right hmove)]

/-! ## The walk -/

lemma not_mem_reach_of_isEmpty : ∀ {w : List Char} {S : StateSet}, S.isEmpty = true →
    ∀ t, t ∉ A.reach S w
  | [], _, h, t => SortedSet.isEmpty_iff.1 h t
  | c :: w, S, h, t => by
      rw [reach_cons]
      refine not_mem_reach_of_isEmpty (SortedSet.isEmpty_iff.2 fun r hr => ?_) t
      obtain ⟨q, hq, -⟩ := mem_advance.1 hr
      exact SortedSet.isEmpty_iff.1 h q hq

lemma hasFinal_reach_of_isEmpty {w : List Char} (h : S.isEmpty = true) :
    A.hasFinal (A.reach S w) = false := by
  rw [← Bool.not_eq_true, hasFinal_iff]
  rintro ⟨t, ht, -⟩
  exact not_mem_reach_of_isEmpty h t ht

/-- The walk from the name of a set ends in a final state exactly if the simulation from the set
does. -/
lemma any_walk?_determinize : ∀ (w : List Char) {S : StateSet}, A.Discovered S →
    (A.determinize.walk? (A.setLabel S) w).any A.determinize.isFinal = A.hasFinal (A.reach S w)
  | [], S, hS => isFinal_determinize hS
  | c :: w, S, hS => by
      rw [walk?, next?_determinize hS, reach_cons]
      split_ifs with hempty
      · rw [Option.bind_none, Option.any_none, hasFinal_reach_of_isEmpty hempty]
      · rw [SortedSet.isEmpty_iff] at hempty
        push Not at hempty
        obtain ⟨t, ht⟩ := hempty
        exact any_walk?_determinize w (.move hS (mem_successors_of_mem_advance ht))

/-- The walk decides the language of the automaton that was made deterministic. -/
lemma walks_determinize_iff {word : String} :
    A.determinize.walks word = true ↔ word.toList ∈ A.language := by
  rw [← accepts_iff_mem_language, walks, uniqueInitial?_determinize, Option.bind_some,
    any_walk?_determinize _ .start, accepts]

/-- **The walk through the deterministic automaton and the simulation agree on every word.** -/
theorem walks_determinize_eq_accepts (A : Automaton) (word : String) :
    A.determinize.walks word = A.accepts word := by
  rw [Bool.eq_iff_iff, walks_determinize_iff, accepts_iff_mem_language]

end FiniteAutomata.Automaton
