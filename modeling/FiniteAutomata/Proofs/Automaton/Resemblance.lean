import FiniteAutomata.Automaton.Profile
import FiniteAutomata.Proofs.Automaton.Tables
import FiniteAutomata.Proofs.Numeral
import Mathlib.Data.List.Sort

/-!
# What the quick comparison compares

Automata have the same shape if their alphabets are equal, they have as many states and as many states
that edges leave, and the same numbers of edges leave their states on the same symbols.  The comparison
finds all automata of the same shape.  It finds others too, because the numbers are written behind the
symbols without anything in between: `a1b` and `1` give the same text as `a` and `1`, `b` and `1`.  Where
such a text can be cut in only one way, automata that resemble each other have the same shape.

* `Automaton.fanOut`, `Automaton.SameShape` — the shape of an automaton.
* `degrees_eq_fanOut` — the comparison goes by the right numbers.
* `CutsUniquely` — texts that can be cut in one way; `cutsUniquely_plain` and `cutsUniquely_short` are
  two cases.
* **`resembles_of_sameShape`, `resembles_iff_of_cutsUniquely`** — what is found.
* **`resembles_iff_sameShape`** — for automata whose symbols hold no digits, and for deterministic automata
  over characters, the comparison is exact.
* `not_forall_resembles_iff_sameShape` — it is not in general.
-/

namespace FiniteAutomata

/-! ## Shapes -/

namespace Automaton

variable {A B : Automaton} {d : Symbol × Nat}

/-- The states that edges leave. -/
def departures (A : Automaton) : StateSet :=
  A.states.keys.filter fun q => A.edges.toList.any (·.source == q)

/-- For every state and every symbol that leads somewhere from there, the symbol and the number of
states it leads to. -/
def fanOut (A : Automaton) : List (Symbol × Nat) :=
  A.states.keys.toList.flatMap fun q =>
    (A.alphabet.filter fun s => !(A.targets q s).isEmpty).toList.map fun s => (s, (A.targets q s).size)

/-- Automata that differ in nothing that is counted. -/
structure SameShape (A B : Automaton) : Prop where
  alphabet : A.alphabet = B.alphabet
  states : A.states.size = B.states.size
  departures : A.departures.size = B.departures.size
  /-- The pairs are the same, each as often; what state they come from does not matter. -/
  fanOut : A.fanOut.Perm B.fanOut

lemma sources_eq_departures : A.sources = A.departures := by
  rw [Tables.sources_eq_filter, edges_tables]
  rfl

lemma leaving_eq_filter (q : Label) :
    A.leaving q = A.alphabet.filter fun s => !(A.targets q s).isEmpty := by
  refine SortedSet.ext fun s => ?_
  rw [mem_leaving, SortedSet.mem_filter, Bool.not_eq_true', ← Bool.not_eq_true, SortedSet.isEmpty_iff]
  constructor
  · rintro ⟨t, he⟩
    exact ⟨(knows_iff.1 (knows_of_mem he)).2.1, fun hnone => hnone t (mem_targets.2 he)⟩
  · rintro ⟨-, hsome⟩
    obtain ⟨t, ht⟩ := not_forall_not.1 hsome
    exact ⟨t, mem_targets.1 ht⟩

/-- The pairs of one state. -/
lemma map_outgoing (q : Label) :
    ((A.outgoing q).map fun move => (move.1, move.2.size)) =
      (A.leaving q).toList.map fun s => (s, (A.targets q s).size) := List.map_map

/-- **The numbers that are compared are those of the shape.** -/
theorem degrees_eq_fanOut : A.degrees = A.fanOut := by
  have hnone : ∀ q ∈ A.states.keys.toList, A.edges.toList.any (·.source == q) = false →
      ((A.leaving q).toList.map fun s => (s, (A.targets q s).size)) = [] := by
    intro q _ hq
    refine List.map_eq_nil_iff.2 (List.eq_nil_iff_forall_not_mem.2 fun s hs => ?_)
    obtain ⟨t, he⟩ := mem_leaving.1 hs
    exact List.any_eq_false.1 hq _ he (beq_self_eq_true q)
  calc A.degrees
      = A.departures.toList.flatMap fun q =>
          (A.leaving q).toList.map fun s => (s, (A.targets q s).size) := by
        simp only [degrees, sources_eq_departures, map_outgoing]
    _ = A.states.keys.toList.flatMap fun q =>
          (A.leaving q).toList.map fun s => (s, (A.targets q s).size) := flatMap_filter_of_nil hnone
    _ = A.fanOut := by simp only [fanOut, leaving_eq_filter]

lemma mem_degrees :
    d ∈ A.degrees ↔ ∃ e ∈ A.edges, d = (e.symbol, (A.targets e.source e.symbol).size) := by
  simp only [degrees, map_outgoing, List.mem_flatMap, List.mem_map, SortedSet.mem_toList]
  constructor
  · rintro ⟨q, -, s, hs, rfl⟩
    obtain ⟨t, he⟩ := mem_leaving.1 hs
    exact ⟨_, he, rfl⟩
  · rintro ⟨⟨q, s, t⟩, he, rfl⟩
    exact ⟨q, mem_sources.2 ⟨s, t, he⟩, s, mem_leaving.2 ⟨t, he⟩, rfl⟩

end Automaton

/-! ## Texts that can be cut -/

namespace Degree

variable {d d' : Symbol × Nat} {l m : List (Symbol × Nat)} {P : Symbol × Nat → Prop}

/-- A symbol with a number behind it. -/
def text (d : Symbol × Nat) : String := d.1 ++ toString d.2

/-- The characters of pairs one behind the other. -/
def joined (l : List (Symbol × Nat)) : List Char := l.flatMap fun d => (text d).toList

lemma toList_text : (text d).toList = d.1.toList ++ (toString d.2).toList := String.toList_append

lemma joined_cons : joined (d :: l) = (text d).toList ++ joined l := List.flatMap_cons

/-- Pairs with this property can be told apart in a text of several. -/
def CutsUniquely (P : Symbol × Nat → Prop) : Prop :=
  ∀ l m : List (Symbol × Nat), (∀ d ∈ l, P d) → (∀ d ∈ m, P d) → joined l = joined m → l = m

lemma toList_toString_ne_nil (n : Nat) : (toString n).toList ≠ [] := by
  rw [toList_toString_nat]
  exact Nat.toDigits_ne_nil

/-- It is enough that the first pair can be told. -/
lemma cutsUniquely_of_first
    (h : ∀ d d', P d → P d' → ∀ l m, (∀ e ∈ l, P e) → (∀ e ∈ m, P e) →
      joined (d :: l) = joined (d' :: m) → d = d') : CutsUniquely P := by
  have hne : ∀ d (l : List (Symbol × Nat)), joined (d :: l) ≠ [] := by
    intro d l
    rw [joined_cons, toList_text]
    simp
  intro l
  induction l with
  | nil =>
      intro m _ _ hjoined
      cases m with
      | nil => rfl
      | cons d' m => exact absurd hjoined.symm (hne d' m)
  | cons d l ih =>
      intro m hl hm hjoined
      cases m with
      | nil => exact absurd hjoined (hne d l)
      | cons d' m =>
          obtain ⟨hd, hrest⟩ := List.forall_mem_cons.1 hl
          obtain ⟨hd', hrest'⟩ := List.forall_mem_cons.1 hm
          obtain rfl := h d d' hd hd' l m hrest hrest' hjoined
          rw [joined_cons, joined_cons, List.append_cancel_left_eq] at hjoined
          rw [ih m hrest hrest' hjoined]

/-- The symbol ends where the number begins. -/
def Plain (d : Symbol × Nat) : Prop := d.1 ≠ epsilon ∧ ∀ c ∈ d.1.toList, c.isDigit = false

/-- One character and one digit. -/
def Short (d : Symbol × Nat) : Prop := d.1.length = 1 ∧ d.2 < 10

lemma takeWhile_isDigit_joined (h : ∀ d ∈ l, Plain d) : (joined l).takeWhile Char.isDigit = [] := by
  cases l with
  | nil => rfl
  | cons d l =>
      obtain ⟨hne, hplain⟩ := h d (List.mem_cons_self ..)
      obtain ⟨c, cs, hcs⟩ := List.exists_cons_of_ne_nil (mt String.toList_eq_nil_iff.1 hne)
      rw [joined_cons, toList_text, hcs, List.cons_append, List.cons_append]
      exact List.takeWhile_cons_of_neg (by simp [hplain c (hcs ▸ List.mem_cons_self ..)])

/-- The digits between two symbols are those of the number. -/
lemma takeWhile_isDigit_append (n : Nat) (h : ∀ d ∈ l, Plain d) :
    ((toString n).toList ++ joined l).takeWhile Char.isDigit = (toString n).toList := by
  rw [List.takeWhile_append_of_pos fun c hc => isDigit_of_mem_toString hc,
    takeWhile_isDigit_joined h, List.append_nil]

/-- What stands in front of the first digit is the symbol. -/
lemma takeWhile_not_isDigit_joined (h : ∀ c ∈ d.1.toList, c.isDigit = false) :
    (joined (d :: l)).takeWhile (fun c => !c.isDigit) = d.1.toList := by
  obtain ⟨c, cs, hcs⟩ := List.exists_cons_of_ne_nil (toList_toString_ne_nil d.2)
  have hc : c.isDigit = true := isDigit_of_mem_toString (hcs ▸ List.mem_cons_self ..)
  rw [joined_cons, toList_text, List.append_assoc,
    List.takeWhile_append_of_pos fun c hc => by rw [h c hc]; rfl, hcs, List.cons_append,
    List.takeWhile_cons_of_neg (by simp [hc]), List.append_nil]

theorem cutsUniquely_plain : CutsUniquely Plain := by
  refine cutsUniquely_of_first fun d d' hd hd' l m hl hm hjoined => ?_
  have hsymbol : d.1.toList = d'.1.toList := by
    rw [← takeWhile_not_isDigit_joined hd.2, hjoined, takeWhile_not_isDigit_joined hd'.2]
  rw [joined_cons, joined_cons, toList_text, toList_text, hsymbol, List.append_assoc,
    List.append_assoc, List.append_cancel_left_eq] at hjoined
  have hnumber : (toString d.2).toList = (toString d'.2).toList := by
    rw [← takeWhile_isDigit_append d.2 hl, hjoined, takeWhile_isDigit_append d'.2 hm]
  exact Prod.ext (String.toList_inj.1 hsymbol) (toString_nat_injective hnumber)

theorem cutsUniquely_short : CutsUniquely Short := by
  have hlength : ∀ d, Short d → d.1.toList.length = 1 ∧ (toString d.2).toList.length = 1 := by
    rintro d ⟨hone, hlt⟩
    refine ⟨String.length_toList.trans hone, ?_⟩
    rw [toList_toString_nat, Nat.toDigits_of_lt_base hlt]
    rfl
  refine cutsUniquely_of_first fun d d' hd hd' l m _ _ hjoined => ?_
  obtain ⟨hs, hn⟩ := hlength d hd
  obtain ⟨hs', hn'⟩ := hlength d' hd'
  rw [joined_cons, joined_cons, toList_text, toList_text, List.append_assoc,
    List.append_assoc] at hjoined
  obtain ⟨hsymbol, hjoined⟩ := List.append_inj hjoined (hs.trans hs'.symm)
  obtain ⟨hnumber, -⟩ := List.append_inj hjoined (hn.trans hn'.symm)
  exact Prod.ext (String.toList_inj.1 hsymbol) (toString_nat_injective hnumber)

end Degree

/-! ## What the comparison finds -/

namespace Automaton

open Degree

variable {A B : Automaton} {P : Symbol × Nat → Prop}

/-- The pairs in the order of their texts. -/
def sortedDegrees (A : Automaton) : List (Symbol × Nat) :=
  A.degrees.mergeSort fun d d' => text d ≤ text d'

lemma sortedDegrees_perm : A.sortedDegrees.Perm A.degrees := List.mergeSort_perm _ _

lemma profile_eq_join : A.profile = String.join (A.sortedDegrees.map text) := by
  have hsorted : A.sortedDegrees.map text = (A.degrees.map text).mergeSort fun a b => a ≤ b :=
    List.map_mergeSort fun _ _ _ _ => rfl
  rw [hsorted]
  rfl

lemma toList_profile : A.profile.toList = joined A.sortedDegrees := by
  rw [profile_eq_join, String.toList_join, List.flatMap_map]
  rfl

/-- Nothing is sorted if the texts are in order already. -/
lemma toList_profile_of_pairwise
    (h : A.degrees.Pairwise fun d d' => decide (text d ≤ text d') = true) :
    A.profile.toList = joined A.degrees := by
  rw [toList_profile, sortedDegrees, List.mergeSort_of_pairwise h]

lemma resembles_iff :
    A.resembles B = true ↔
      A.alphabet = B.alphabet ∧ A.states.size = B.states.size ∧
        A.departures.size = B.departures.size ∧ A.profile = B.profile := by
  simp only [resembles, Bool.and_eq_true, beq_iff_eq, and_assoc, sources_eq_departures]

/-- Where the pairs come from does not matter. -/
lemma profile_eq_of_perm (h : A.degrees.Perm B.degrees) : A.profile = B.profile := by
  have htexts : (A.degrees.map text).mergeSort (fun a b => a ≤ b) =
      (B.degrees.map text).mergeSort (fun a b => a ≤ b) := by
    refine List.Perm.eq_of_pairwise' (List.pairwise_mergeSort' (· ≤ ·) _)
      (List.pairwise_mergeSort' (· ≤ ·) _) ?_
    exact (List.mergeSort_perm _ _).trans ((h.map text).trans (List.mergeSort_perm _ _).symm)
  exact congrArg String.join htexts

lemma perm_of_profile_eq (hcut : CutsUniquely P) (hA : ∀ d ∈ A.degrees, P d)
    (hB : ∀ d ∈ B.degrees, P d) (h : A.profile = B.profile) : A.degrees.Perm B.degrees := by
  have hsorted : A.sortedDegrees = B.sortedDegrees := by
    refine hcut _ _ (fun d hd => hA d (sortedDegrees_perm.mem_iff.1 hd))
      (fun d hd => hB d (sortedDegrees_perm.mem_iff.1 hd)) ?_
    rw [← toList_profile, ← toList_profile, h]
  exact sortedDegrees_perm.symm.trans (hsorted ▸ sortedDegrees_perm)

/-- **Automata of the same shape are found.** -/
theorem resembles_of_sameShape (h : A.SameShape B) : A.resembles B = true := by
  refine resembles_iff.2 ⟨h.alphabet, h.states, h.departures, profile_eq_of_perm ?_⟩
  rw [degrees_eq_fanOut, degrees_eq_fanOut]
  exact h.fanOut

/-- **Nothing else is found if the texts can be cut in one way only.** -/
theorem resembles_iff_of_cutsUniquely (hcut : CutsUniquely P) (hA : ∀ d ∈ A.degrees, P d)
    (hB : ∀ d ∈ B.degrees, P d) : A.resembles B = true ↔ A.SameShape B := by
  refine ⟨fun h => ?_, resembles_of_sameShape⟩
  obtain ⟨halphabet, hstates, hdepartures, hprofile⟩ := resembles_iff.1 h
  have hperm := perm_of_profile_eq hcut hA hB hprofile
  rw [degrees_eq_fanOut, degrees_eq_fanOut] at hperm
  exact ⟨halphabet, hstates, hdepartures, hperm⟩

/-- The symbol of every edge ends where the number behind it begins. -/
def HasPlainSymbols (A : Automaton) : Prop :=
  ∀ e ∈ A.edges, e.symbol ≠ epsilon ∧ ∀ c ∈ e.symbol.toList, c.isDigit = false

/-- An edge carries one character, and few edges carry it from where it begins. -/
def HasShortDegrees (A : Automaton) : Prop :=
  ∀ e ∈ A.edges, e.symbol.length = 1 ∧ (A.targets e.source e.symbol).size < 10

lemma forall_degrees (h : ∀ e ∈ A.edges, P (e.symbol, (A.targets e.source e.symbol).size)) :
    ∀ d ∈ A.degrees, P d := by
  intro d hd
  obtain ⟨e, he, rfl⟩ := mem_degrees.1 hd
  exact h e he

/-- Deterministic automata over characters, whatever the characters are. -/
lemma hasShortDegrees_of_isDeterministic (hdet : A.isDeterministic = true)
    (h : ∀ e ∈ A.edges, e.symbol.length = 1) : A.HasShortDegrees := by
  intro e he
  have hone := List.all_eq_true.1 hdet e he
  rw [Bool.and_eq_true, decide_eq_true_eq] at hone
  exact ⟨h e he, by omega⟩

/-- **Automata of the same shape resemble each other, and if numbers can be told from symbols then no
others do.** -/
theorem resembles_iff_sameShape :
    (A.SameShape B → A.resembles B = true) ∧
      (A.HasPlainSymbols ∧ B.HasPlainSymbols ∨ A.HasShortDegrees ∧ B.HasShortDegrees →
        (A.resembles B = true ↔ A.SameShape B)) := by
  refine ⟨resembles_of_sameShape, ?_⟩
  rintro (⟨hA, hB⟩ | ⟨hA, hB⟩)
  · exact resembles_iff_of_cutsUniquely cutsUniquely_plain (forall_degrees hA) (forall_degrees hB)
  · exact resembles_iff_of_cutsUniquely cutsUniquely_short (forall_degrees hA) (forall_degrees hB)

/-- Three states in a row, with an edge from each to the next. -/
def path (first second : Symbol) : Automaton :=
  build .deterministic [.state "p" .onlyInitial false, .state "q" .empty false,
    .state "r" .onlyFinal false, .symbol "1", .symbol "a", .edge ⟨"p", first, "q"⟩,
    .edge ⟨"q", second, "r"⟩]

/-- The symbol `1` is no harm where all symbols have one character. -/
theorem resembles_iff_sameShape_digit :
    (path "1" "a").HasShortDegrees ∧ (path "1" "1").HasShortDegrees ∧
      (path "1" "a").resembles (path "1" "1") = false := by
  have hleft : (path "1" "a").HasShortDegrees :=
    hasShortDegrees_of_isDeterministic (by decide) (by decide)
  have hright : (path "1" "1").HasShortDegrees :=
    hasShortDegrees_of_isDeterministic (by decide) (by decide)
  have hshape : ¬ (path "1" "a").SameShape (path "1" "1") := fun h => absurd h.fanOut (by decide)
  refine ⟨hleft, hright, Bool.eq_false_iff.2 fun hresembles => hshape ?_⟩
  exact (resembles_iff_sameShape.2 (.inr ⟨hleft, hright⟩)).1 hresembles

/-- A state with an edge back to itself on each of the symbols. -/
def loops (symbols : List Symbol) : Automaton :=
  build .deterministic ([.state "p" .onlyInitial false, .symbol "a", .symbol "a1b", .symbol "b"] ++
    symbols.map fun s => .edge ⟨"p", s, "p"⟩)

/-- With edges on `a` and `b` the text is `a1b1`, and so it is with one edge on `a1b`. -/
theorem not_forall_resembles_iff_sameShape :
    ¬ ∀ A B : Automaton, A.resembles B = true ↔ A.SameShape B := by
  intro h
  have hprofile : (loops ["a", "b"]).profile = (loops ["a1b"]).profile := by
    apply String.toList_inj.1
    rw [toList_profile_of_pairwise (by decide), toList_profile_of_pairwise (by decide)]
    decide
  have hresembles : (loops ["a", "b"]).resembles (loops ["a1b"]) = true :=
    resembles_iff.2 ⟨by decide, by decide, by decide, hprofile⟩
  have hlength := ((h _ _).1 hresembles).fanOut.length_eq
  revert hlength
  decide

end Automaton

end FiniteAutomata
