import FiniteAutomata.Proofs.Automaton.Closure
import Mathlib.Computability.Language
import Mathlib.Order.CompletePartialOrder

/-!
# Runs of an automaton

A run follows edges and reads the characters that they carry; edges on `epsilon` read nothing, and
edges on longer symbols are in no run.  The simulation of an automaton keeps the set of all states
that some run has come to, so its verdict is a statement about runs.  All reasoning about automata
that are put together from others is done on runs.

* `Run` — the runs of an automaton.
* `mem_reach_closure` — the simulation finds the ends of the runs.
* `uniqueInitial?_eq_some_iff`, `next?_eq_some_iff`, `walks_iff` — what the walk requires.
* `run_of_walk?` — the walk is one of the runs.
* `language` — the words that label a run from an initial to a final state.
* **`accepts_iff_mem_language`** — the simulation decides the language.
-/

namespace FiniteAutomata.Automaton

open Relation

variable {A : Automaton} {S : StateSet} {p q r t : Label} {c : Char} {u v w : List Char}
  {word : String}

/-! ## Marks -/

lemma mem_initial : q ∈ A.initial ↔ ∃ f, A.states.get? q = some f ∧ f.initial = true :=
  SortedMap.mem_keysWhere

lemma mem_final : q ∈ A.final ↔ ∃ f, A.states.get? q = some f ∧ f.final = true :=
  SortedMap.mem_keysWhere

lemma isFinal_iff_mem_final : A.isFinal q = true ↔ q ∈ A.final := by
  rw [mem_final, isFinal, flags?, Option.any_eq_true]

lemma hasFinal_iff : A.hasFinal S = true ↔ ∃ q ∈ S, q ∈ A.final := by
  simp only [hasFinal, List.any_eq_true, isFinal_iff_mem_final, SortedSet.mem_toList]

/-! ## Runs -/

/-- What is read along an edge with a symbol.  A symbol of several characters reads nothing at all:
no edge with it is in a run. -/
inductive Reads : Symbol → List Char → Prop
  | nothing : Reads epsilon []
  | character (c : Char) : Reads (String.singleton c) [c]

lemma Reads.eq_nil (reads : Reads epsilon u) : u = [] := by
  generalize hs : epsilon = s at reads
  cases reads with
  | nothing => rfl
  | character c => simpa [epsilon] using congrArg String.length hs

lemma Reads.eq_singleton {c : Char} (reads : Reads (String.singleton c) u) : u = [c] := by
  generalize hs : String.singleton c = s at reads
  cases reads with
  | nothing => exact absurd hs String.singleton_ne_empty
  | character d => rw [String.singleton_inj.1 hs]

/-- A symbol of at most one character is `epsilon` or a character. -/
lemma eq_epsilon_or_singleton {s : Symbol} (hs : s.length ≤ 1) :
    s = epsilon ∨ ∃ c, s = String.singleton c := by
  rw [← String.length_toList] at hs
  cases hchars : s.toList with
  | nil => exact .inl (String.toList_inj.1 hchars)
  | cons c rest =>
      have hrest : rest = [] := by
        rw [hchars, List.length_cons] at hs
        exact List.eq_nil_of_length_eq_zero (by omega)
      refine .inr ⟨c, ?_⟩
      rw [← String.toList_inj, hchars, hrest, String.toList_singleton]

/-- Along an edge with a symbol of at most one character, the symbol itself is read. -/
lemma reads_iff_eq_toList {s : Symbol} (hs : s.length ≤ 1) : Reads s w ↔ w = s.toList := by
  rcases eq_epsilon_or_singleton hs with rfl | ⟨c, rfl⟩
  · exact ⟨Reads.eq_nil, fun h => h ▸ .nothing⟩
  · rw [String.toList_singleton]
    exact ⟨Reads.eq_singleton, fun h => h ▸ .character c⟩

/-- `A.Run q w t`: from `q` some edges lead to `t`, and the characters on them are `w`. -/
inductive Run (A : Automaton) : Label → List Char → Label → Prop
  | refl (q : Label) : Run A q [] q
  | step {q p t : Label} {s : Symbol} {u w : List Char} :
      ⟨q, s, p⟩ ∈ A.edges → Reads s u → Run A p w t → Run A q (u ++ w) t

lemma Run.silent (edge : ⟨q, epsilon, p⟩ ∈ A.edges) (run : A.Run p w t) : A.Run q w t :=
  .step edge .nothing run

lemma Run.trans (first : A.Run q u p) (second : A.Run p v t) : A.Run q (u ++ v) t := by
  induction first with
  | refl => exact second
  | step edge reads _ ih =>
      rw [List.append_assoc]
      exact .step edge reads (ih second)

lemma Run.of_path (path : ReflTransGen A.EpsilonStep q t) : A.Run q [] t := by
  induction path using ReflTransGen.head_induction_on with
  | refl => exact .refl t
  | head edge _ ih => exact .silent edge ih

lemma Run.path_of_nil (run : A.Run q [] t) : ReflTransGen A.EpsilonStep q t := by
  generalize hword : ([] : List Char) = word at run
  induction run with
  | refl => exact .refl
  | step edge reads _ ih =>
      cases reads with
      | nothing => exact .head edge (ih hword)
      | character c => cases hword

/-- A run that reads a character takes some edges on `epsilon`, then an edge with the character, and
goes on from there. -/
lemma Run.exists_of_cons {c : Char} (run : A.Run q (c :: w) t) :
    ∃ p r, ReflTransGen A.EpsilonStep q p ∧ ⟨p, String.singleton c, r⟩ ∈ A.edges ∧ A.Run r w t := by
  generalize hword : c :: w = word at run
  induction run with
  | refl => cases hword
  | step edge reads rest ih =>
      cases reads with
      | nothing =>
          obtain ⟨p, r, path, hread, run⟩ := ih hword
          exact ⟨p, r, .head edge path, hread, run⟩
      | character d =>
          cases hword
          exact ⟨_, _, .refl, edge, rest⟩

/-! ## The simulation follows all runs -/

lemma mem_advance {c : Char} :
    t ∈ A.advance S (String.singleton c) ↔
      ∃ q ∈ S, ∃ p, ⟨q, String.singleton c, p⟩ ∈ A.edges ∧ ReflTransGen A.EpsilonStep p t := by
  rw [advance, mem_closure]
  constructor
  · rintro ⟨p, hp, path⟩
    obtain ⟨q, hq, edge⟩ := mem_step.1 hp
    exact ⟨q, hq, p, edge, path⟩
  · rintro ⟨q, hq, p, edge, path⟩
    exact ⟨p, mem_step.2 ⟨q, hq, edge⟩, path⟩

lemma reach_cons {c : Char} :
    A.reach S (c :: w) = A.reach (A.advance S (String.singleton c)) w := rfl

/-- **The simulation finds exactly the ends of the runs.** -/
theorem mem_reach_closure : t ∈ A.reach (A.closure S) w ↔ ∃ q ∈ S, A.Run q w t := by
  induction w generalizing S with
  | nil =>
      change t ∈ A.closure S ↔ _
      rw [mem_closure]
      exact ⟨fun ⟨q, hq, path⟩ => ⟨q, hq, .of_path path⟩,
        fun ⟨q, hq, run⟩ => ⟨q, hq, run.path_of_nil⟩⟩
  | cons c w ih =>
      rw [reach_cons, advance, ih]
      constructor
      · rintro ⟨r, hr, rest⟩
        obtain ⟨p, hp, edge⟩ := mem_step.1 hr
        obtain ⟨q, hq, path⟩ := mem_closure.1 hp
        exact ⟨q, hq, (Run.of_path path).trans (.step edge (.character c) rest)⟩
      · rintro ⟨q, hq, run⟩
        obtain ⟨p, r, path, edge, rest⟩ := run.exists_of_cons
        exact ⟨r, mem_step.2 ⟨p, mem_closure.2 ⟨q, hq, path⟩, edge⟩, rest⟩

/-! ## The walk -/

lemma toList_eq_singleton {U : StateSet} (h : ∀ t, t ∈ U ↔ t = q) : U.toList = [q] := by
  rw [show U = ⟨[q], List.pairwise_singleton _ _⟩ from SortedSet.ext fun t => by
    rw [h, SortedSet.mem_def, List.mem_singleton]]

lemma toList_eq_singleton_iff : S.toList = [q] ↔ ∀ t, t ∈ S ↔ t = q := by
  refine ⟨fun h t => ?_, toList_eq_singleton⟩
  rw [SortedSet.mem_def, h, List.mem_singleton]

/-- The walk begins in the initial state if there is no other. -/
lemma uniqueInitial?_eq_some_iff : A.uniqueInitial? = some q ↔ ∀ t, t ∈ A.initial ↔ t = q := by
  rw [uniqueInitial?, ← toList_eq_singleton_iff]
  split
  · next p h => rw [h, Option.some.injEq, List.cons.injEq, and_iff_left rfl]
  · next h => exact ⟨nofun, fun hq => absurd hq (h q)⟩

/-- The walk goes on to a state if no other edge leads away on the character. -/
lemma next?_eq_some_iff :
    A.next? q c = some t ↔ ∀ r, ⟨q, String.singleton c, r⟩ ∈ A.edges ↔ r = t := by
  simp only [next?, ← mem_targets, ← toList_eq_singleton_iff]
  split
  · next p h => rw [h, Option.some.injEq, List.cons.injEq, and_iff_left rfl]
  · next h => exact ⟨nofun, fun ht => absurd ht (h t)⟩

lemma walk?_cons_eq_some_iff :
    A.walk? q (c :: w) = some t ↔ ∃ r, A.next? q c = some r ∧ A.walk? r w = some t :=
  Option.bind_eq_some_iff

/-- The walk accepts where it comes from the only initial state to a final state. -/
lemma walks_iff :
    A.walks word = true ↔
      ∃ q, (∀ r, r ∈ A.initial ↔ r = q) ∧ ∃ t ∈ A.final, A.walk? q word.toList = some t := by
  simp only [walks, Option.any_eq_true, Option.bind_eq_some_iff, uniqueInitial?_eq_some_iff,
    isFinal_iff_mem_final]
  constructor
  · rintro ⟨t, ⟨q, hq, hwalk⟩, ht⟩
    exact ⟨q, hq, t, ht, hwalk⟩
  · rintro ⟨q, hq, t, ht, hwalk⟩
    exact ⟨t, ⟨q, hq, hwalk⟩, ht⟩

/-- The walk is one of the runs. -/
lemma run_of_walk? (h : A.walk? q w = some t) : A.Run q w t := by
  induction w generalizing q with
  | nil =>
      obtain rfl := Option.some.inj h
      exact .refl q
  | cons c w ih =>
      obtain ⟨r, hnext, hwalk⟩ := walk?_cons_eq_some_iff.1 h
      exact .step ((next?_eq_some_iff.1 hnext r).2 rfl) (.character c) (ih hwalk)

/-! ## The language -/

/-- The words that label a run from a state to a final state. -/
def languageFrom (A : Automaton) (q : Label) : Language Char :=
  {w | ∃ t ∈ A.final, A.Run q w t}

/-- The words that label a run from an initial to a final state. -/
def language (A : Automaton) : Language Char :=
  {w | ∃ q ∈ A.initial, w ∈ A.languageFrom q}

lemma mem_languageFrom : w ∈ A.languageFrom q ↔ ∃ t ∈ A.final, A.Run q w t := Iff.rfl

lemma mem_language : w ∈ A.language ↔ ∃ q ∈ A.initial, w ∈ A.languageFrom q := Iff.rfl

/-- **The simulation decides the language.** -/
theorem accepts_iff_mem_language {word : String} :
    A.accepts word = true ↔ word.toList ∈ A.language := by
  rw [accepts, hasFinal_iff, mem_language]
  constructor
  · rintro ⟨t, ht, hfinal⟩
    obtain ⟨q, hq, run⟩ := mem_reach_closure.1 ht
    exact ⟨q, hq, t, hfinal, run⟩
  · rintro ⟨q, hq, t, hfinal, run⟩
    exact ⟨t, mem_reach_closure.2 ⟨q, hq, run⟩, hfinal⟩

end FiniteAutomata.Automaton
