import FiniteAutomata.Proofs.Automaton.Changes
import Mathlib.Data.List.Induction

/-!
# Automata kept in tables of tables

An automaton has its edges in one set.  They can also be kept by state and by symbol: for every state
that edges leave a row, with every symbol on these edges and the states it leads to.  Then an edge goes
into a row and into a set in it, both of which are made when they are needed first, and only the test
beforehand says that the edge is known.  Rows that were made for nothing would make equal automata differ.
There are none: after any changes the tables are those that the automaton determines.

* `Tables` — an automaton in tables, the changes, and the edges as they are listed.
* `Automaton.tables` — the tables that an automaton determines.
* `Automaton.row_addEdge_self`, `Automaton.row_addEdge_of_ne` — an edge changes one row.
* **`Automaton.apply_tables`, `Tables.after_eq_tables`** — one change, and all of them.
* `Tables.Accurate` — what holds of the tables after changes.
* **`Tables.accurate_after`** — it holds after any changes, and tables are equal if alphabet, marks and
  edges are.
-/

namespace FiniteAutomata

open Std

/-! ## Maps with given keys -/

namespace SortedMap

variable {κ ν : Type} [Ord κ] {keys : SortedSet κ} {f : κ → ν}

/-- The map with the given keys, whose values are those of a function. -/
def ofKeys (keys : SortedSet κ) (f : κ → ν) : SortedMap κ ν :=
  ⟨keys.toList.map fun k => (k, f k), List.pairwise_map.2 keys.sorted⟩

lemma get?_ofKeys [TransOrd κ] [LawfulEqOrd κ] {k : κ} :
    (ofKeys keys f).get? k = if k ∈ keys then some (f k) else none := by
  ext v
  rw [← mem_toList_iff]
  split_ifs with hk
  · simp [ofKeys, SortedSet.mem_toList, hk]
  · simp only [ofKeys, List.mem_map, Prod.mk.injEq, iff_false]
    rintro ⟨x, hx, rfl, -⟩
    exact hk hx

lemma get?_ofKeys_eq_some_iff [TransOrd κ] [LawfulEqOrd κ] {k : κ} {v : ν} :
    (ofKeys keys f).get? k = some v ↔ k ∈ keys ∧ f k = v := by
  rw [get?_ofKeys, Option.ite_none_right_eq_some, Option.some.injEq]

end SortedMap

/-! ## Tables -/

/-- The symbols on the edges that leave a state, with the states that they lead to. -/
abbrev Row := SortedMap Symbol StateSet

/-- Puts a state into the set of a symbol, which is made if there is none. -/
def Row.enter (row : Row) (symbol : Symbol) (target : Label) : Row :=
  row.insert symbol (((row.get? symbol).getD ∅).insert target)

/-- An automaton with its edges in a table of rows. -/
structure Tables where
  alphabet : SortedSet Symbol
  states : SortedMap Label Flags
  /-- The rows of the states that edges leave. -/
  rows : SortedMap Label Row
deriving DecidableEq

namespace Tables

/-- The tables without states. -/
def new : Kind → Tables
  | .nondeterministic => ⟨(∅ : SortedSet Symbol).insert epsilon, ∅, ∅⟩
  | .deterministic => ⟨∅, ∅, ∅⟩

/-- Adds a state or, if that is allowed, replaces its marks, and says whether something was done. -/
def addState (T : Tables) (label : Label) (flags : Flags) (overwrite : Bool) : Bool × Tables :=
  match T.states.get? label with
  | some _ =>
    if overwrite then (true, { T with states := T.states.insert label flags }) else (false, T)
  | none => (true, { T with states := T.states.insert label flags })

/-- Adds an edge and says whether its ends and its symbol are known; otherwise nothing is done. The row
of the source is made if there is none. -/
def addEdge (T : Tables) (e : Edge) : Bool × Tables :=
  if T.states.contains e.source && T.states.contains e.target && T.alphabet.contains e.symbol then
    let row := ((T.rows.get? e.source).getD ∅).enter e.symbol e.target
    (true, { T with rows := T.rows.insert e.source row })
  else (false, T)

/-- Makes a change and says whether it could be made. -/
def apply (T : Tables) : Change → Bool × Tables
  | .state label flags overwrite => T.addState label flags overwrite
  | .symbol symbol => (true, { T with alphabet := T.alphabet.insert symbol })
  | .edge e => T.addEdge e

/-- The tables after all changes. -/
def after (kind : Kind) (changes : List Change) : Tables :=
  changes.foldl (fun T change => (T.apply change).2) (new kind)

/-- The edges, row by row, and within a row symbol by symbol. -/
def edges (T : Tables) : List Edge :=
  T.rows.toList.flatMap fun (source, row) =>
    row.toList.flatMap fun (symbol, targets) =>
      targets.toList.map fun target => ⟨source, symbol, target⟩

end Tables

/-! ## Edges in order -/

lemma Edge.compare_eq_lt_iff {a b : Edge} :
    compare a b = .lt ↔ compare a.source b.source = .lt ∨
      a.source = b.source ∧ (compare a.symbol b.symbol = .lt ∨
        a.symbol = b.symbol ∧ compare a.target b.target = .lt) := by
  change compareLex _ (compareLex _ _) a b = .lt ↔ _
  simp only [compareLex, compareOn, Ordering.then_eq_lt, Std.compare_eq_iff_eq]

namespace Tables

variable {T : Tables} {e : Edge}

lemma mem_edges :
    e ∈ T.edges ↔ ∃ row targets, T.rows.get? e.source = some row ∧
      row.get? e.symbol = some targets ∧ e.target ∈ targets := by
  simp only [edges, List.mem_flatMap, List.mem_map, SortedSet.mem_toList]
  constructor
  · rintro ⟨⟨q, row⟩, hrow, ⟨s, targets⟩, htargets, t, ht, rfl⟩
    exact ⟨row, targets, SortedMap.mem_toList_iff.1 hrow, SortedMap.mem_toList_iff.1 htargets, ht⟩
  · rintro ⟨row, targets, hrow, htargets, ht⟩
    exact ⟨⟨_, row⟩, SortedMap.mem_toList_iff.2 hrow, ⟨_, targets⟩,
      SortedMap.mem_toList_iff.2 htargets, _, ht, rfl⟩

/-- The edges are listed in order, whatever is in the tables. -/
lemma pairwise_edges (T : Tables) : T.edges.Pairwise fun d e => compare d e = .lt := by
  refine List.pairwise_flatMap.2 ⟨fun r _ => List.pairwise_flatMap.2 ⟨fun c _ => ?_, ?_⟩, ?_⟩
  · refine List.pairwise_map.2 (c.2.sorted.imp fun {t u} hlt => ?_)
    exact Edge.compare_eq_lt_iff.2 (.inr ⟨rfl, .inr ⟨rfl, hlt⟩⟩)
  · refine r.2.sorted.imp fun {c d} hlt x hx y hy => ?_
    obtain ⟨t, -, rfl⟩ := List.mem_map.1 hx
    obtain ⟨u, -, rfl⟩ := List.mem_map.1 hy
    exact Edge.compare_eq_lt_iff.2 (.inr ⟨rfl, .inl hlt⟩)
  · refine T.rows.sorted.imp fun {r r'} hlt x hx y hy => ?_
    obtain ⟨c, -, hx⟩ := List.mem_flatMap.1 hx
    obtain ⟨d, -, hy⟩ := List.mem_flatMap.1 hy
    obtain ⟨t, -, rfl⟩ := List.mem_map.1 hx
    obtain ⟨u, -, rfl⟩ := List.mem_map.1 hy
    exact Edge.compare_eq_lt_iff.2 (.inl hlt)

end Tables

/-! ## The tables of an automaton -/

namespace Automaton

variable {A B : Automaton} {q t : Label} {s : Symbol} {e d : Edge} {c : Change} {changes : List Change}

/-- The symbols on the edges that leave a state. -/
def leaving (A : Automaton) (q : Label) : SortedSet Symbol :=
  .ofList ((A.edges.toList.filter (·.source == q)).map (·.symbol))

/-- The row of a state. -/
def row (A : Automaton) (q : Label) : Row := .ofKeys (A.leaving q) (A.targets q)

/-- The tables of an automaton. -/
def tables (A : Automaton) : Tables := ⟨A.alphabet, A.states, .ofKeys A.sources A.row⟩

/-- A row lists what `outgoing` lists. -/
lemma toList_row : (A.row q).toList = A.outgoing q := rfl

lemma mem_sources : q ∈ A.sources ↔ ∃ s t, ⟨q, s, t⟩ ∈ A.edges := by
  simp only [sources, SortedSet.mem_ofList, List.mem_map, SortedSet.mem_toList]
  constructor
  · rintro ⟨⟨_, s, t⟩, he, rfl⟩
    exact ⟨s, t, he⟩
  · rintro ⟨s, t, he⟩
    exact ⟨_, he, rfl⟩

lemma mem_leaving : s ∈ A.leaving q ↔ ∃ t, ⟨q, s, t⟩ ∈ A.edges := by
  simp only [leaving, SortedSet.mem_ofList, List.mem_map, List.mem_filter, SortedSet.mem_toList,
    beq_iff_eq]
  constructor
  · rintro ⟨⟨_, _, t⟩, ⟨he, rfl⟩, rfl⟩
    exact ⟨t, he⟩
  · rintro ⟨t, he⟩
    exact ⟨_, ⟨he, rfl⟩, rfl⟩

lemma get?_row_eq_some_iff {targets : StateSet} :
    (A.row q).get? s = some targets ↔ s ∈ A.leaving q ∧ A.targets q s = targets :=
  SortedMap.get?_ofKeys_eq_some_iff

lemma get?_rows_eq_some_iff {row : Row} :
    A.tables.rows.get? q = some row ↔ q ∈ A.sources ∧ A.row q = row :=
  SortedMap.get?_ofKeys_eq_some_iff

/-- A symbol that is not in a row leads nowhere. -/
lemma getD_row : ((A.row q).get? s).getD ∅ = A.targets q s := by
  rw [row, SortedMap.get?_ofKeys]
  split_ifs with hs
  · rfl
  · refine SortedSet.ext fun t => iff_of_false (SortedSet.not_mem_empty t) fun ht => ?_
    exact hs (mem_leaving.2 ⟨t, mem_targets.1 ht⟩)

/-- No edge leaves a state that has no row. -/
lemma getD_rows : (A.tables.rows.get? q).getD ∅ = A.row q := by
  rw [tables, SortedMap.get?_ofKeys]
  split_ifs with hq
  · rfl
  · refine SortedMap.ext fun s => ?_
    have hs : s ∉ A.leaving q := fun hs =>
      hq (mem_sources.2 ⟨s, mem_leaving.1 hs⟩)
    rw [row, SortedMap.get?_ofKeys, if_neg hs]
    rfl

/-- A row depends only on the edges that leave the state. -/
lemma row_congr (h : ∀ s t, ⟨q, s, t⟩ ∈ A.edges ↔ ⟨q, s, t⟩ ∈ B.edges) : A.row q = B.row q := by
  have hleaving : A.leaving q = B.leaving q :=
    SortedSet.ext fun s => by simp only [mem_leaving, h]
  have htargets : A.targets q = B.targets q :=
    funext fun s => SortedSet.ext fun t => by simp only [mem_targets, h]
  rw [row, row, hleaving, htargets]

/-- The edges of the tables are those of the automaton, in the same order. -/
lemma edges_tables : A.tables.edges = A.edges.toList := by
  refine eq_of_increasing id (Tables.pairwise_edges _) A.edges.sorted fun e => ?_
  rw [Tables.mem_edges, SortedSet.mem_toList]
  simp only [get?_rows_eq_some_iff]
  constructor
  · rintro ⟨_, _, ⟨-, rfl⟩, hrow, ht⟩
    obtain ⟨-, rfl⟩ := get?_row_eq_some_iff.1 hrow
    exact mem_targets.1 ht
  · intro he
    exact ⟨_, _, ⟨mem_sources.2 ⟨_, _, he⟩, rfl⟩,
      get?_row_eq_some_iff.2 ⟨mem_leaving.2 ⟨_, he⟩, rfl⟩, mem_targets.2 he⟩

/-! ### What an edge changes -/

lemma mem_addEdge_of_knows (h : A.knows e = true) : d ∈ (A.addEdge e).edges ↔ d = e ∨ d ∈ A.edges := by
  rw [mem_addEdge, and_iff_left h]

/-- The row of the source gets the symbol and the target. -/
lemma row_addEdge_self (h : A.knows e = true) :
    (A.addEdge e).row e.source = (A.row e.source).enter e.symbol e.target := by
  obtain ⟨q, s, t⟩ := e
  refine SortedMap.ext fun x => ?_
  rw [Row.enter, SortedMap.get?_insert, getD_row]
  split_ifs with hx
  · subst hx
    have hmem : x ∈ (A.addEdge ⟨q, x, t⟩).leaving q :=
      mem_leaving.2 ⟨t, (mem_addEdge_of_knows h).2 (.inl rfl)⟩
    rw [row, SortedMap.get?_ofKeys, if_pos hmem]
    refine congrArg some (SortedSet.ext fun u => ?_)
    rw [mem_targets, mem_addEdge_of_knows h, SortedSet.mem_insert, mem_targets]
    simp
  · have hedges : ∀ u, ⟨q, x, u⟩ ∈ (A.addEdge ⟨q, s, t⟩).edges ↔ ⟨q, x, u⟩ ∈ A.edges := fun u => by
      rw [mem_addEdge_of_knows h]
      exact or_iff_right fun heq => hx (Edge.mk.inj heq).2.1
    have hleaving : x ∈ (A.addEdge ⟨q, s, t⟩).leaving q ↔ x ∈ A.leaving q := by
      simp only [mem_leaving, hedges]
    have htargets : (A.addEdge ⟨q, s, t⟩).targets q x = A.targets q x :=
      SortedSet.ext fun u => by rw [mem_targets, mem_targets, hedges]
    simp only [row, SortedMap.get?_ofKeys, hleaving, htargets]

/-- The other rows stay as they are. -/
lemma row_addEdge_of_ne (h : q ≠ e.source) : (A.addEdge e).row q = A.row q := by
  refine row_congr fun s t => ?_
  rw [mem_addEdge]
  refine or_iff_right ?_
  rintro ⟨rfl, -⟩
  exact h rfl

/-- **An edge goes into the row of its source**, which is a new one if no edge has left it before. -/
lemma rows_addEdge (h : A.knows e = true) :
    (A.addEdge e).tables.rows =
      A.tables.rows.insert e.source ((A.row e.source).enter e.symbol e.target) := by
  refine SortedMap.ext fun q => ?_
  rw [SortedMap.get?_insert, tables, SortedMap.get?_ofKeys]
  split_ifs with hsources hq hq
  · rw [hq, row_addEdge_self h]
  · have hold : q ∈ A.sources := by
      obtain ⟨s, t, hmem⟩ := mem_sources.1 hsources
      rcases (mem_addEdge_of_knows h).1 hmem with rfl | hmem
      · exact absurd rfl hq
      · exact mem_sources.2 ⟨s, t, hmem⟩
    rw [row_addEdge_of_ne hq, tables, SortedMap.get?_ofKeys, if_pos hold]
  · refine absurd (mem_sources.2 ⟨e.symbol, e.target, ?_⟩) hsources
    exact (mem_addEdge_of_knows h).2 (.inl (by rw [hq]))
  · have hold : q ∉ A.sources := fun hold => by
      obtain ⟨s, t, hmem⟩ := mem_sources.1 hold
      exact hsources (mem_sources.2 ⟨s, t, (mem_addEdge_of_knows h).2 (.inr hmem)⟩)
    rw [tables, SortedMap.get?_ofKeys, if_neg hold]

lemma addState_tables {label : Label} {flags : Flags} {overwrite : Bool} :
    A.tables.addState label flags overwrite =
      (A.admits (.state label flags overwrite), (A.apply (.state label flags overwrite)).tables) := by
  rw [Tables.addState, admits, apply, addState, hasState, SortedMap.contains]
  change (match A.states.get? label with | some _ => _ | none => _) = _
  cases A.states.get? label with
  | none => cases overwrite <;> rfl
  | some old => cases overwrite <;> rfl

lemma addEdge_tables : A.tables.addEdge e = (A.knows e, (A.addEdge e).tables) := by
  have htest : (A.tables.states.contains e.source && A.tables.states.contains e.target &&
      A.tables.alphabet.contains e.symbol) = A.knows e := Bool.and_right_comm _ _ _
  rw [Tables.addEdge, htest]
  cases h : A.knows e with
  | true =>
      let row := (A.row e.source).enter e.symbol e.target
      have htables : (A.addEdge e).tables =
          { A.tables with rows := A.tables.rows.insert e.source row } := by
        rw [← rows_addEdge h]
        simp [tables]
      rw [if_pos rfl, getD_rows, htables]
  | false =>
      have hsame : A.addEdge e = A := dif_neg (Bool.not_eq_true _ ▸ h)
      rw [if_neg Bool.false_ne_true, hsame]

/-- **One change does the same to an automaton and to its tables**, and it can be made to both or to
neither. -/
theorem apply_tables : A.tables.apply c = (A.admits c, (A.apply c).tables) := by
  cases c with
  | state label flags overwrite => exact addState_tables
  | symbol s => rfl
  | edge e => exact addEdge_tables

lemma tables_blank {kind : Kind} : (blank kind).tables = Tables.new kind := by
  cases kind <;> rfl

lemma foldl_apply_tables :
    changes.foldl (fun T change => (T.apply change).2) A.tables = (A.applyAll changes).tables := by
  induction changes generalizing A with
  | nil => rfl
  | cons change changes ih =>
      rw [List.foldl_cons, apply_tables, ih]
      rfl

/-! ### What changes add -/

lemma build_concat {kind : Kind} : build kind (changes ++ [c]) = (build kind changes).apply c :=
  List.foldl_concat _ _ _ _

lemma mem_edges_apply_iff :
    e ∈ (A.apply c).edges ↔ e ∈ A.edges ∨ c = .edge e ∧ A.admits (.edge e) = true := by
  cases c with
  | state label flags overwrite => cases overwrite <;> simp [apply, setState]
  | symbol s => simp [apply]
  | edge d =>
      rw [apply, mem_addEdge, or_comm, Change.edge.injEq, eq_comm (a := e)]
      refine or_congr_right (and_congr_right ?_)
      rintro rfl
      rfl

lemma mem_alphabet_apply (h : s ∈ A.alphabet) : s ∈ (A.apply c).alphabet := by
  cases c with
  | state label flags overwrite => cases overwrite <;> simpa [apply, setState] using h
  | symbol r => exact mem_addSymbol.2 (.inr h)
  | edge e => rwa [apply, alphabet_addEdge]

lemma hasState_apply (h : A.hasState q = true) : (A.apply c).hasState q = true := by
  obtain ⟨f, hf⟩ := hasState_iff.1 h
  rw [hasState_iff]
  cases c with
  | state label flags overwrite =>
      cases overwrite with
      | true =>
          change ∃ f, (A.setState label flags).states.get? q = some f
          rw [get?_setState]
          split_ifs
          · exact ⟨_, rfl⟩
          · exact ⟨f, hf⟩
      | false =>
          change ∃ f, (A.addState label flags).states.get? q = some f
          rw [get?_addState]
          split_ifs
          · exact ⟨_, rfl⟩
          · exact ⟨f, hf⟩
  | symbol s => exact ⟨f, hf⟩
  | edge e => exact ⟨f, (congrArg (·.get? q) states_addEdge).trans hf⟩

/-- The edges are those with a change that could be made when its turn came. -/
lemma mem_edges_build_iff {kind : Kind} :
    e ∈ (build kind changes).edges ↔
      ∃ before, before ++ [.edge e] <+: changes ∧ (build kind before).admits (.edge e) = true := by
  induction changes using List.reverseRecOn with
  | nil =>
      refine iff_of_false not_mem_edges_blank ?_
      rintro ⟨before, hbefore, -⟩
      simp at hbefore
  | append_singleton changes c ih =>
      rw [build_concat, mem_edges_apply_iff, ih]
      simp only [List.prefix_concat_iff, List.append_singleton_inj]
      constructor
      · rintro (⟨before, hbefore, hadmits⟩ | ⟨rfl, hadmits⟩)
        · exact ⟨before, .inr hbefore, hadmits⟩
        · exact ⟨changes, .inl ⟨rfl, rfl⟩, hadmits⟩
      · rintro ⟨before, ⟨rfl, rfl⟩ | hbefore, hadmits⟩
        · exact .inr ⟨rfl, hadmits⟩
        · exact .inl ⟨before, hbefore, hadmits⟩

end Automaton

/-! ## Tables after changes -/

namespace Tables

variable {T U V : Tables} {A B : Automaton} {kind : Kind} {changes : List Change} {c : Change}

open Automaton (build)

/-- **After any changes the tables are those of the automaton that the changes lead to.** -/
theorem after_eq_tables (kind : Kind) (changes : List Change) :
    after kind changes = (build kind changes).tables := by
  rw [after, ← Automaton.tables_blank, Automaton.foldl_apply_tables]
  rfl

/-- All that is in some tables is in others. -/
structure Within (T U : Tables) : Prop where
  alphabet : ∀ s ∈ T.alphabet, s ∈ U.alphabet
  states : ∀ q, T.states.contains q = true → U.states.contains q = true
  edges : ∀ e ∈ T.edges, e ∈ U.edges

lemma Within.trans (h : T.Within U) (h' : U.Within V) : T.Within V where
  alphabet s hs := h'.alphabet s (h.alphabet s hs)
  states q hq := h'.states q (h.states q hq)
  edges e he := h'.edges e (h.edges e he)

/-- **A change takes nothing away.** -/
lemma within_apply : A.tables.Within (A.apply c).tables where
  alphabet _ := Automaton.mem_alphabet_apply
  states _ := Automaton.hasState_apply
  edges e he := by
    rw [Automaton.edges_tables, SortedSet.mem_toList] at he ⊢
    exact Automaton.mem_edges_apply_iff.2 (.inl he)

lemma within_after (kind : Kind) (changes more : List Change) :
    (after kind changes).Within (after kind (changes ++ more)) := by
  induction more using List.reverseRecOn with
  | nil =>
      rw [List.append_nil]
      exact ⟨fun _ => id, fun _ => id, fun _ => id⟩
  | append_singleton more c ih =>
      refine ih.trans ?_
      rw [after_eq_tables, after_eq_tables, ← List.append_assoc, Automaton.build_concat]
      exact within_apply

/-- The same symbols, the same marks for every label and the same edges. -/
structure Agrees (T U : Tables) : Prop where
  alphabet : ∀ s, s ∈ T.alphabet ↔ s ∈ U.alphabet
  states : ∀ q, T.states.get? q = U.states.get? q
  edges : ∀ e, e ∈ T.edges ↔ e ∈ U.edges

/-- Symbols, marks and edges determine an automaton. -/
lemma agrees_tables_iff : A.tables.Agrees B.tables ↔ A = B := by
  constructor
  · intro h
    refine Automaton.ext_of_mem h.alphabet h.states fun e => ?_
    have hedges := h.edges e
    rwa [Automaton.edges_tables, Automaton.edges_tables] at hedges
  · rintro rfl
    exact ⟨fun _ => .rfl, fun _ => rfl, fun _ => .rfl⟩

/-- Different automata have different tables. -/
lemma tables_inj : A.tables = B.tables ↔ A = B :=
  ⟨fun h => agrees_tables_iff.1 (h ▸ agrees_tables_iff.2 rfl), congrArg _⟩

/-- What holds of tables after changes. -/
structure Accurate (T : Tables) (kind : Kind) (changes : List Change) : Prop where
  /-- The ends of every edge are states, and its symbol is in the alphabet. -/
  known : ∀ e ∈ T.edges, T.states.contains e.source = true ∧ e.symbol ∈ T.alphabet ∧
    T.states.contains e.target = true
  /-- No row is empty, and no set in a row. -/
  filled : ∀ q row, T.rows.get? q = some row →
    row ≠ ∅ ∧ ∀ s targets, row.get? s = some targets → targets ≠ ∅
  /-- There are as many rows as states that an edge leaves. -/
  rows : T.rows.size = (T.states.keys.filter fun q => T.edges.any (·.source == q)).size
  /-- The edges are listed in order, by source, then by symbol, then by target. -/
  ascending : T.edges.Pairwise fun d e => compare d e = .lt
  /-- Every edge is listed once. -/
  nodup : T.edges.Nodup
  /-- The edges are those that were to be added when they were known. -/
  added : ∀ e, e ∈ T.edges ↔ ∃ before, before ++ [.edge e] <+: changes ∧
    ((after kind before).apply (.edge e)).1 = true
  /-- Nothing is taken away later. -/
  kept : ∀ more, T.Within (after kind (changes ++ more))

lemma filled_tables {q : Label} {row : Row} (hrow : A.tables.rows.get? q = some row) :
    row ≠ ∅ ∧ ∀ s targets, row.get? s = some targets → targets ≠ ∅ := by
  obtain ⟨hq, rfl⟩ := Automaton.get?_rows_eq_some_iff.1 hrow
  constructor
  · intro hempty
    obtain ⟨s, t, he⟩ := Automaton.mem_sources.1 hq
    have hs := Automaton.get?_row_eq_some_iff.2 ⟨Automaton.mem_leaving.2 ⟨t, he⟩, rfl⟩
    rw [hempty] at hs
    cases hs
  · rintro s targets htargets rfl
    obtain ⟨hs, hnone⟩ := Automaton.get?_row_eq_some_iff.1 htargets
    obtain ⟨t, he⟩ := Automaton.mem_leaving.1 hs
    exact SortedSet.not_mem_empty t (hnone ▸ Automaton.mem_targets.2 he)

lemma size_rows_tables : A.tables.rows.size = A.sources.size := List.length_map _

/-- The states with a row are those that an edge leaves. -/
lemma sources_eq_filter :
    A.sources = A.tables.states.keys.filter fun q => A.tables.edges.any (·.source == q) := by
  refine SortedSet.ext fun q => ?_
  rw [SortedSet.mem_filter, Automaton.mem_sources, Automaton.edges_tables, List.any_eq_true]
  constructor
  · rintro ⟨s, t, he⟩
    have hq : A.hasState q = true := (Automaton.knows_iff.1 (Automaton.knows_of_mem he)).1
    exact ⟨SortedMap.mem_keys.2 hq, _, he, beq_self_eq_true q⟩
  · rintro ⟨-, ⟨source, s, t⟩, he, hsource⟩
    obtain rfl : source = q := beq_iff_eq.1 hsource
    exact ⟨s, t, he⟩

lemma accurate (kind : Kind) (changes : List Change) :
    (after kind changes).Accurate kind changes where
  known e he := by
    rw [after_eq_tables, Automaton.edges_tables] at he
    rw [after_eq_tables]
    exact Automaton.knows_iff.1 (Automaton.knows_of_mem he)
  filled q row hrow := by
    rw [after_eq_tables] at hrow
    exact filled_tables hrow
  rows := by rw [after_eq_tables, size_rows_tables, sources_eq_filter]
  ascending := pairwise_edges _
  nodup := by
    rw [after_eq_tables, Automaton.edges_tables]
    exact SortedSet.nodup_toList _
  added e := by
    rw [after_eq_tables, Automaton.edges_tables, SortedSet.mem_toList, Automaton.mem_edges_build_iff]
    simp only [after_eq_tables, Automaton.apply_tables]
  kept := within_after kind changes

/-- **After any changes the tables are accurate.** They are those of the automaton that the changes lead
to, with the same answers to further changes, the same edges in the same order, as many rows as there are
sources, and in each row what leaves the source; and tables, like automata, are equal exactly if the
symbols, the marks and the edges are the same, whatever changes led there. -/
theorem accurate_after (kind : Kind) (changes : List Change) :
    (after kind changes).Accurate kind changes ∧
      (after kind changes = (build kind changes).tables ∧
        (∀ c, ((after kind changes).apply c).1 = (build kind changes).admits c) ∧
        (after kind changes).edges = (build kind changes).edges.toList ∧
        (after kind changes).rows.size = (build kind changes).sources.size ∧
        ∀ q row, (after kind changes).rows.get? q = some row →
          row.toList = (build kind changes).outgoing q) ∧
      ∀ (kind' : Kind) (changes' : List Change),
        (after kind changes = after kind' changes' ↔
          (after kind changes).Agrees (after kind' changes')) ∧
        (build kind changes = build kind' changes' ↔
          (after kind changes).Agrees (after kind' changes')) := by
  have hafter := after_eq_tables kind changes
  refine ⟨accurate kind changes, ⟨hafter, fun c => ?_, ?_, ?_, fun q row hrow => ?_⟩,
    fun kind' changes' => ?_⟩
  · rw [hafter, Automaton.apply_tables]
  · rw [hafter, Automaton.edges_tables]
  · rw [hafter, size_rows_tables]
  · rw [hafter] at hrow
    obtain ⟨-, rfl⟩ := Automaton.get?_rows_eq_some_iff.1 hrow
    exact Automaton.toList_row
  · rw [hafter, after_eq_tables kind' changes', agrees_tables_iff, tables_inj]
    exact ⟨.rfl, .rfl⟩

/-- An edge that comes before its symbol leaves no row behind. -/
example : (after .deterministic [.state "q" .both false, .edge ⟨"q", "a", "q"⟩]).rows = ∅ := by
  decide

end Tables

end FiniteAutomata
