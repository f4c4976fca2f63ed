import FiniteAutomata.Proofs.Automaton.Combinations
import FiniteAutomata.Proofs.Automaton.Determinize
import FiniteAutomata.Proofs.Automaton.Resemblance
import Mathlib.Data.Set.Function

/-!
# Automata that differ in labels only

Two automata are isomorphic if a function takes the states of one to those of the other, each to one
of its own, and keeps marks and edges.  The simulation of the one then passes through the images of
the sets that the simulation of the other passes through, in whatever order the labels are sorted, and
so the verdicts are the same.  The numbers that the quick comparison looks at are the same too, except
for their order.

* `SortedSet.image` — the image of a set under a function.
* `Automaton.IsomorphicBy` — the automata differ in the labels of their states only.
* `IsomorphicBy.closure_image`, `IsomorphicBy.advance_image` — the simulation goes through images.
* **`IsomorphicBy.accepts_eq`** — words get the same verdict.
* **`IsomorphicBy.resembles`** — the quick comparison sees no difference.
-/

namespace FiniteAutomata

/-! ## Images of sets -/

namespace SortedSet

open Std

variable {α β : Type} [Ord α] [Ord β] [TransOrd β] [LawfulEqOrd β] {f : α → β} {s t : SortedSet α}
  {b : β}

/-- The values of a function at the members of a set. -/
def image (f : α → β) (s : SortedSet α) : SortedSet β := ofList (s.toList.map f)

lemma mem_image : b ∈ s.image f ↔ ∃ a ∈ s, b = f a := by
  simp only [image, mem_ofList, List.mem_map, mem_toList, eq_comm]

lemma mem_image_of_mem {a : α} (ha : a ∈ s) : f a ∈ s.image f := mem_image.2 ⟨a, ha, rfl⟩

/-- If `f a` is related to the values at what `a` is related to, for each member `a`, then the image is
related to the values at what the set is related to. -/
lemma exists_mem_image_iff {R : α → α → Prop} {Q : β → β → Prop}
    (h : ∀ a ∈ s, Q (f a) b ↔ ∃ c, R a c ∧ b = f c) :
    (∃ y ∈ s.image f, Q y b) ↔ ∃ c, (∃ a ∈ s, R a c) ∧ b = f c := by
  constructor
  · rintro ⟨y, hy, hb⟩
    obtain ⟨a, ha, rfl⟩ := mem_image.1 hy
    obtain ⟨c, hc, hbc⟩ := (h a ha).1 hb
    exact ⟨c, ⟨a, ha, hc⟩, hbc⟩
  · rintro ⟨c, ⟨a, ha, hc⟩, hbc⟩
    exact ⟨f a, mem_image_of_mem ha, (h a ha).2 ⟨c, hc, hbc⟩⟩

/-- The values are those at the members, in another order. -/
lemma toList_image_perm [ReflOrd α] (hinj : Set.InjOn f {a | a ∈ s}) :
    (s.image f).toList.Perm (s.toList.map f) := by
  have hnodup : (s.toList.map f).Nodup := s.nodup_toList.map_on fun a ha b hb h => hinj ha hb h
  refine (List.perm_ext_iff_of_nodup (s.image f).nodup_toList hnodup).2 fun b => ?_
  rw [image, mem_toList, mem_ofList]

lemma size_image [ReflOrd α] (hinj : Set.InjOn f {a | a ∈ s}) : (s.image f).size = s.size := by
  rw [size, (toList_image_perm hinj).length_eq, List.length_map, size]

lemma isEmpty_image : (s.image f).isEmpty = s.isEmpty := by
  rw [Bool.eq_iff_iff, isEmpty_iff, isEmpty_iff]
  constructor
  · intro h a ha
    exact h (f a) (mem_image_of_mem ha)
  · intro h b hb
    obtain ⟨a, ha, -⟩ := mem_image.1 hb
    exact h a ha

/-- A set can be told from its image, among sets on which the function is injective. -/
lemma image_injective [TransOrd α] {P : Set α} (hinj : Set.InjOn f P) (hs : ∀ a ∈ s, a ∈ P)
    (ht : ∀ a ∈ t, a ∈ P) (h : s.image f = t.image f) : s = t := by
  have hsubset : ∀ {u v : SortedSet α}, (∀ a ∈ u, a ∈ P) → (∀ a ∈ v, a ∈ P) →
      u.image f = v.image f → ∀ a ∈ u, a ∈ v := by
    intro u v hu hv huv a ha
    obtain ⟨b, hb, hab⟩ := mem_image.1 (huv ▸ mem_image_of_mem ha)
    rwa [hinj (hu a ha) (hv b hb) hab]
  exact ext fun a => ⟨hsubset hs ht h a, hsubset ht hs h.symm a⟩

end SortedSet

namespace Automaton

open Relation

variable {A B : Automaton} {r : Label → Label} {S : StateSet} {q x : Label} {s : Symbol}

/-! ## Isomorphic automata -/

/-- The automata differ only in the labels of their states, and `r` turns the labels of `A` into those
of `B`. -/
structure IsomorphicBy (A B : Automaton) (r : Label → Label) : Prop where
  bijective : Set.BijOn r {q | A.hasState q = true} {q | B.hasState q = true}
  alphabet : B.alphabet = A.alphabet
  flags : ∀ q, A.hasState q = true → B.flags? (r q) = A.flags? q
  edges : ∀ q s t, A.hasState q = true → A.hasState t = true →
    (⟨r q, s, r t⟩ ∈ B.edges ↔ ⟨q, s, t⟩ ∈ A.edges)

/-- It is enough that the states and the edges of `B` are the renamed ones of `A`. -/
lemma isomorphicBy_of_renamed (hinj : Set.InjOn r {q | A.hasState q = true})
    (halphabet : B.alphabet = A.alphabet)
    (hstates : ∀ x f, B.states.get? x = some f ↔ ∃ q, A.states.get? q = some f ∧ x = r q)
    (hedges : ∀ e, e ∈ B.edges ↔ ∃ d ∈ A.edges, e = d.rename r) : A.IsomorphicBy B r where
  bijective := by
    refine ⟨fun q hq => ?_, hinj, fun x hx => ?_⟩
    · obtain ⟨f, hf⟩ := hasState_iff.1 hq
      exact hasState_of_get? ((hstates _ f).2 ⟨q, hf, rfl⟩)
    · obtain ⟨f, hf⟩ := hasState_iff.1 hx
      obtain ⟨q, hq, rfl⟩ := (hstates x f).1 hf
      exact ⟨q, hasState_of_get? hq, rfl⟩
  alphabet := halphabet
  flags q hq := by
    obtain ⟨f, hf⟩ := hasState_iff.1 hq
    rw [flags?, flags?, hf]
    exact (hstates _ f).2 ⟨q, hf, rfl⟩
  edges q s t hq ht := by
    rw [hedges]
    constructor
    · rintro ⟨d, hd, h⟩
      obtain ⟨hsource, rfl, htarget⟩ := Edge.mk.inj h
      rw [hinj hq (A.known d hd).1.1 hsource, hinj ht (A.known d hd).2 htarget]
      exact hd
    · intro h
      exact ⟨_, h, rfl⟩

namespace IsomorphicBy

/-! ## What corresponds to what -/

lemma hasState (iso : A.IsomorphicBy B r) (hq : A.hasState q = true) : B.hasState (r q) = true :=
  iso.bijective.mapsTo hq

lemma exists_eq (iso : A.IsomorphicBy B r) (hx : B.hasState x = true) :
    ∃ q, A.hasState q = true ∧ x = r q := by
  obtain ⟨q, hq, rfl⟩ := iso.bijective.surjOn hx
  exact ⟨q, hq, rfl⟩

/-- Different states of a set of states have different new labels. -/
lemma injOn (iso : A.IsomorphicBy B r) (hS : ∀ q ∈ S, A.hasState q = true) :
    Set.InjOn r {q | q ∈ S} :=
  iso.bijective.injOn.mono hS

/-- Every edge from a renamed state is an edge of the original, renamed. -/
lemma mem_edges_source (iso : A.IsomorphicBy B r) (hq : A.hasState q = true) :
    ⟨r q, s, x⟩ ∈ B.edges ↔ ∃ t, ⟨q, s, t⟩ ∈ A.edges ∧ x = r t := by
  constructor
  · intro edge
    obtain ⟨t, ht, rfl⟩ := iso.exists_eq (B.known _ edge).2
    exact ⟨t, (iso.edges q s t hq ht).1 edge, rfl⟩
  · rintro ⟨t, edge, rfl⟩
    exact (iso.edges q s t hq (A.known _ edge).2).2 edge

lemma keys_eq (iso : A.IsomorphicBy B r) : B.states.keys = A.states.keys.image r := by
  refine SortedSet.ext fun x => ?_
  rw [SortedSet.mem_image, ← SortedSet.mem_toList, mem_keys_toList]
  constructor
  · intro hx
    obtain ⟨q, hq, rfl⟩ := iso.exists_eq hx
    exact ⟨q, mem_keys_toList.2 hq, rfl⟩
  · rintro ⟨q, hq, rfl⟩
    exact iso.hasState (mem_keys_toList.1 hq)

lemma keys_perm (iso : A.IsomorphicBy B r) :
    B.states.keys.toList.Perm (A.states.keys.toList.map r) := by
  rw [iso.keys_eq]
  exact SortedSet.toList_image_perm (iso.injOn fun _ => mem_keys_toList.1)

lemma targets_eq (iso : A.IsomorphicBy B r) (hq : A.hasState q = true) :
    B.targets (r q) s = (A.targets q s).image r := by
  refine SortedSet.ext fun x => ?_
  simp only [mem_targets, SortedSet.mem_image, iso.mem_edges_source hq]

/-! ## The simulation -/

lemma isFinal_eq (iso : A.IsomorphicBy B r) (hq : A.hasState q = true) :
    B.isFinal (r q) = A.isFinal q := by
  rw [isFinal, isFinal, iso.flags q hq]

lemma initial_eq (iso : A.IsomorphicBy B r) : B.initial = A.initial.image r := by
  refine SortedSet.ext fun x => ?_
  simp only [SortedSet.mem_image, mem_initial]
  constructor
  · rintro ⟨f, hf, hinitial⟩
    obtain ⟨q, hq, rfl⟩ := iso.exists_eq (hasState_of_get? hf)
    exact ⟨q, ⟨f, (iso.flags q hq).symm.trans hf, hinitial⟩, rfl⟩
  · rintro ⟨q, ⟨f, hf, hinitial⟩, rfl⟩
    exact ⟨f, (iso.flags q (hasState_of_get? hf)).trans hf, hinitial⟩

lemma step_image (iso : A.IsomorphicBy B r) (hS : ∀ q ∈ S, A.hasState q = true) :
    B.step (S.image r) s = (A.step S s).image r := by
  refine SortedSet.ext fun x => ?_
  rw [mem_step, SortedSet.mem_image]
  simp only [mem_step]
  exact SortedSet.exists_mem_image_iff (R := fun q t => ⟨q, s, t⟩ ∈ A.edges)
    (Q := fun q t => ⟨q, s, t⟩ ∈ B.edges) fun q hq => iso.mem_edges_source (hS q hq)

/-- Paths of edges on `epsilon` from a renamed state are paths of the original, renamed. -/
lemma exists_path_iff (iso : A.IsomorphicBy B r) (hq : A.hasState q = true) :
    ReflTransGen B.EpsilonStep (r q) x ↔ ∃ t, ReflTransGen A.EpsilonStep q t ∧ x = r t := by
  constructor
  · intro path
    induction path with
    | refl => exact ⟨q, .refl, rfl⟩
    | tail _ edge ih =>
        obtain ⟨p, hp, rfl⟩ := ih
        obtain ⟨t, ht, rfl⟩ := (iso.mem_edges_source (hasState_of_path hq hp)).1 edge
        exact ⟨t, hp.tail ht, rfl⟩
  · rintro ⟨t, path, rfl⟩
    induction path with
    | refl => exact .refl
    | tail path edge ih =>
        exact ih.tail ((iso.mem_edges_source (hasState_of_path hq path)).2 ⟨_, edge, rfl⟩)

/-- **The closure of the image is the image of the closure.** -/
theorem closure_image (iso : A.IsomorphicBy B r) (hS : ∀ q ∈ S, A.hasState q = true) :
    B.closure (S.image r) = (A.closure S).image r := by
  refine SortedSet.ext fun x => ?_
  rw [mem_closure, SortedSet.mem_image]
  simp only [mem_closure]
  exact SortedSet.exists_mem_image_iff fun q hq => iso.exists_path_iff (hS q hq)

lemma start_eq (iso : A.IsomorphicBy B r) : B.start = A.start.image r := by
  rw [start, iso.initial_eq, iso.closure_image fun q hq => hasState_of_mem_initial hq, start]

/-- **One step of the simulation** leads from an image to an image. -/
theorem advance_image (iso : A.IsomorphicBy B r) (hS : ∀ q ∈ S, A.hasState q = true) :
    B.advance (S.image r) s = (A.advance S s).image r := by
  rw [advance, iso.step_image hS, iso.closure_image hasState_of_mem_step, advance]

lemma hasFinal_image (iso : A.IsomorphicBy B r) (hS : ∀ q ∈ S, A.hasState q = true) :
    B.hasFinal (S.image r) = A.hasFinal S := by
  rw [Bool.eq_iff_iff, hasFinal, hasFinal, List.any_eq_true, List.any_eq_true]
  constructor
  · rintro ⟨x, hx, hfinal⟩
    obtain ⟨q, hq, rfl⟩ := SortedSet.mem_image.1 hx
    exact ⟨q, hq, iso.isFinal_eq (hS q hq) ▸ hfinal⟩
  · rintro ⟨q, hq, hfinal⟩
    exact ⟨r q, SortedSet.mem_image_of_mem hq, (iso.isFinal_eq (hS q hq)).trans hfinal⟩

lemma hasFinal_reach_image (iso : A.IsomorphicBy B r) : ∀ (w : List Char) {S : StateSet},
    (∀ q ∈ S, A.hasState q = true) → B.hasFinal (B.reach (S.image r) w) = A.hasFinal (A.reach S w)
  | [], _, hS => iso.hasFinal_image hS
  | c :: w, S, hS => by
      rw [reach_cons, reach_cons, iso.advance_image hS]
      exact iso.hasFinal_reach_image w hasState_of_mem_advance

/-- **Words get the same verdict.** -/
theorem accepts_eq (iso : A.IsomorphicBy B r) (word : String) : B.accepts word = A.accepts word := by
  rw [accepts, iso.start_eq, iso.hasFinal_reach_image _ Discovered.start.hasState, accepts]

/-! ## The quick comparison -/

lemma departures_eq (iso : A.IsomorphicBy B r) : B.departures = A.departures.image r := by
  refine SortedSet.ext fun x => ?_
  simp only [SortedSet.mem_image, ← sources_eq_departures, mem_sources]
  constructor
  · rintro ⟨s, y, edge⟩
    obtain ⟨q, hq, rfl⟩ := iso.exists_eq (B.known _ edge).1.1
    obtain ⟨t, ht, -⟩ := (iso.mem_edges_source hq).1 edge
    exact ⟨q, ⟨s, t, ht⟩, rfl⟩
  · rintro ⟨q, ⟨s, t, edge⟩, rfl⟩
    exact ⟨s, r t, (iso.mem_edges_source (A.known _ edge).1.1).2 ⟨t, edge, rfl⟩⟩

/-- A state has the same numbers under its new label, so all numbers are the same when the states
are taken in the order of the old labels. -/
lemma fanOut_perm (iso : A.IsomorphicBy B r) : A.fanOut.Perm B.fanOut := by
  have hmembers : ∀ q s, ∀ t ∈ A.targets q s, A.hasState t = true := by
    intro q s t ht
    exact (A.known _ (mem_targets.1 ht)).2
  have hpairs : B.fanOut.Perm ((A.states.keys.toList.map r).flatMap fun x =>
      (B.alphabet.filter fun s => !(B.targets x s).isEmpty).toList.map fun s =>
        (s, (B.targets x s).size)) := iso.keys_perm.flatMap_right _
  rw [List.flatMap_map] at hpairs
  refine (hpairs.trans (.of_eq (List.flatMap_congr fun q hq => ?_))).symm
  simp only [iso.alphabet, iso.targets_eq (mem_keys_toList.1 hq), SortedSet.isEmpty_image,
    SortedSet.size_image (iso.injOn (hmembers q _))]

lemma sameShape (iso : A.IsomorphicBy B r) : A.SameShape B where
  alphabet := iso.alphabet.symm
  states := by
    rw [← length_keys_toList, ← length_keys_toList, iso.keys_perm.length_eq, List.length_map]
  departures := by
    rw [iso.departures_eq]
    refine (SortedSet.size_image (iso.injOn fun q hq => ?_)).symm
    exact mem_keys_toList.1 (SortedSet.mem_filter.1 hq).1
  fanOut := iso.fanOut_perm

/-- **The quick comparison sees no difference.** -/
theorem resembles (iso : A.IsomorphicBy B r) : A.resembles B = true :=
  resembles_of_sameShape iso.sameShape

end IsomorphicBy

end Automaton

end FiniteAutomata
