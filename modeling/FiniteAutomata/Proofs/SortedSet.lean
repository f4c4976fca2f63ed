import FiniteAutomata.Proofs.Extensionality
import Mathlib.Data.List.Destutter
import Mathlib.Data.Set.Basic

/-!
# Sets in sequences that are searched by halving

A sorted set can be kept in one sequence and be looked up by halving.  Half of the sequence is put aside
unseen, for no other reason than that it is in order: in a sequence out of order a member may be missed,
and then it is inserted a second time.  So whatever enlarges the set, elements one at a time or a batch of
them in any order and with repetitions, has to leave the sequence increasing.  It does, and so the sequence
after any calls is the sorted set after the same calls, and either holds what was supplied.

* `InOrder.search`, **`InOrder.search_cases`** — where an element stands, or where it belongs.
* `InOrder.insert`, `InOrder.extend`, `InOrder.collect` — the ways to change a sequence in order.
* **`InOrder.Holds.perform`** — a call leaves the sequence in order, with the elements that it should hold.
* `Agree` — a sorted set, a sequence and a set of elements that are the same.
* **`agree_after`** — they are the same after any calls, and the answers are those of the set of elements.
-/

namespace FiniteAutomata

open Std

/-- A way to change a set. -/
inductive SetCall (α : Type)
  /-- Adds an element. -/
  | insert (a : α)
  /-- Adds a batch of elements. -/
  | extend (l : List α)
  /-- Begins again with a batch of elements. -/
  | collect (l : List α)

namespace InOrder

section Definitions

variable {α : Type} [Ord α]

/-- The sequence goes up, so nothing is in it twice. -/
def Increasing (xs : List α) : Prop := xs.Pairwise fun a b => compare a b = .lt

/-! ## Halving -/

/-- Where an element stands, or where it would have to stand. -/
inductive Place
  | found (i : Nat)
  | missing (i : Nat)

/-- The place in the middle of a stretch. -/
def middle (low high : Nat) : Nat := low + (high - low) / 2

lemma le_middle (low high : Nat) : low ≤ middle low high := Nat.le_add_right _ _

lemma middle_lt {low high : Nat} (h : low < high) : middle low high < high := by
  rw [middle]
  omega

/-- Looks for an element in the stretch from the place `low` to the place before `high`. -/
def searchBetween (a : α) (xs : List α) (low high : Nat) (hhigh : high ≤ xs.length) : Place :=
  if hlow : low < high then
    have hmiddle : middle low high < high := middle_lt hlow
    have hle : low ≤ middle low high := le_middle low high
    match compare a xs[middle low high] with
    | .eq => .found (middle low high)
    | .lt => searchBetween a xs low (middle low high) (by omega)
    | .gt => searchBetween a xs (middle low high + 1) high hhigh
  else .missing low
termination_by high - low

/-- Looks for an element. -/
def search (a : α) (xs : List α) : Place := searchBetween a xs 0 xs.length (Nat.le_refl _)

/-- Whether the element is found. -/
def contains (xs : List α) (a : α) : Bool :=
  match search a xs with
  | .found _ => true
  | .missing _ => false

/-- Whether all elements of the one are found in the other. -/
def isSubset (xs ys : List α) : Bool := xs.all (contains ys)

/-- Puts an element where it belongs unless it is found, and says whether this was done. -/
def insert (xs : List α) (a : α) : Bool × List α :=
  match search a xs with
  | .found _ => (false, xs)
  | .missing i => (true, xs.insertIdx i a)

variable [DecidableEq α]

/-- Sorts a batch and leaves out what is repeated. -/
def collect (l : List α) : List α :=
  (l.mergeSort fun a b => (compare a b).isLE).destutter (· ≠ ·)

/-- Puts a batch behind the sequence and sorts the whole. -/
def extend (xs l : List α) : List α := collect (xs ++ l)

/-- The sequence after a call. -/
def perform (xs : List α) : SetCall α → List α
  | .insert a => (insert xs a).2
  | .extend l => extend xs l
  | .collect l => collect l

/-- The sequence after calls; there is nothing in it at first. -/
def after (calls : List (SetCall α)) : List α := calls.foldl perform []

end Definitions

lemma insertIdx_eq_take_append {α : Type} {a : α} : ∀ {xs : List α} {i : Nat}, i ≤ xs.length →
    xs.insertIdx i a = xs.take i ++ a :: xs.drop i
  | xs, 0, _ => by simp
  | b :: xs, i + 1, h => by
      simp [insertIdx_eq_take_append (Nat.le_of_succ_le_succ h)]

/-! ## What is found -/

variable {α : Type} [Ord α] {xs ys l : List α} {a b : α} {i low high : Nat}

/-- What stands before the place `i` is less than the element, and what stands from `j` on is greater. -/
structure Parts (a : α) (xs : List α) (i j : Nat) : Prop where
  below : ∀ b ∈ xs.take i, compare b a = .lt
  above : ∀ b ∈ xs.drop j, compare a b = .lt

/-- An element of an increasing sequence parts it. -/
lemma Increasing.parts (h : Increasing xs) (hi : i < xs.length) : Parts xs[i] xs i (i + 1) := by
  have hxs : xs.take i ++ xs[i] :: xs.drop (i + 1) = xs := by
    rw [List.getElem_cons_drop, List.take_append_drop]
  rw [Increasing, ← hxs, List.pairwise_append, List.pairwise_cons] at h
  obtain ⟨-, ⟨habove, -⟩, hbelow⟩ := h
  exact ⟨fun b hb => hbelow b hb _ (List.mem_cons_self ..), habove⟩

/-- An element that parts the sequence without a gap is not in it. -/
lemma Parts.not_mem [ReflOrd α] (h : Parts a xs i i) : a ∉ xs := by
  intro ha
  rw [← List.take_append_drop i xs, List.mem_append] at ha
  have hself : compare a a = .lt := by
    rcases ha with ha | ha
    · exact h.below a ha
    · exact h.above a ha
  simp [ReflCmp.compare_self] at hself

variable [TransOrd α]

/-- The element is less than the one in the middle, so it is not from the middle on. -/
lemma Parts.left (h : Parts a xs low high) (hxs : Increasing xs) (hi : i < xs.length)
    (hlt : compare a xs[i] = .lt) : Parts a xs low i where
  below := h.below
  above b hb := by
    rw [← List.getElem_cons_drop hi, List.mem_cons] at hb
    rcases hb with rfl | hb
    · exact hlt
    · exact TransCmp.lt_trans hlt ((hxs.parts hi).above b hb)

/-- The element is greater than the one in the middle, so it is behind the middle. -/
lemma Parts.right (h : Parts a xs low high) (hxs : Increasing xs) (hi : i < xs.length)
    (hgt : compare a xs[i] = .gt) : Parts a xs (i + 1) high where
  below b hb := by
    have hlt : compare xs[i] a = .lt := OrientedCmp.lt_of_gt hgt
    rw [List.take_succ_eq_append_getElem hi, List.mem_append, List.mem_singleton] at hb
    rcases hb with hb | rfl
    · exact TransCmp.lt_trans ((hxs.parts hi).below b hb) hlt
    · exact hlt
  above := h.above

/-- Putting an element where it parts the sequence keeps the sequence in order. -/
lemma Parts.increasing (h : Parts a xs i i) (hxs : Increasing xs) :
    Increasing (xs.take i ++ a :: xs.drop i) := by
  have hab : ∀ b ∈ xs.take i, ∀ c ∈ xs.drop i, compare b c = .lt := fun b hb c hc =>
    TransCmp.lt_trans (h.below b hb) (h.above c hc)
  rw [Increasing, List.pairwise_append, List.pairwise_cons]
  refine ⟨hxs.sublist (List.take_sublist ..), ⟨h.above, hxs.sublist (List.drop_sublist ..)⟩, ?_⟩
  intro b hb c hc
  rcases List.mem_cons.1 hc with rfl | hc
  · exact h.below b hb
  · exact hab b hb c hc

lemma compare_isLE_total (a b : α) : ((compare a b).isLE || (compare b a).isLE) = true := by
  have hswap : compare b a = (compare a b).swap := OrientedCmp.eq_swap
  rw [hswap]
  cases compare a b <;> rfl

lemma pairwise_isLE_mergeSort (l : List α) :
    (l.mergeSort fun a b => (compare a b).isLE).Pairwise fun a b => (compare a b).isLE = true :=
  List.pairwise_mergeSort (fun _ _ _ => TransCmp.isLE_trans) compare_isLE_total l

variable [LawfulEqOrd α]

/-- As long as the element can only be between `low` and `high`, halving this stretch leads to where it is
or to where it belongs. -/
lemma searchBetween_cases (hxs : Increasing xs) (hhigh : high ≤ xs.length) (h : Parts a xs low high)
    (hle : low ≤ high) :
    (∃ i, searchBetween a xs low high hhigh = .found i ∧ a ∈ xs) ∨
      ∃ i ≤ xs.length, searchBetween a xs low high hhigh = .missing i ∧ Parts a xs i i := by
  fun_induction searchBetween a xs low high hhigh with
  | case1 low high hhigh hlow hmiddle hle' heq =>
      refine .inl ⟨_, rfl, ?_⟩
      rw [LawfulEqOrd.eq_of_compare heq]
      exact List.getElem_mem _
  | case2 low high hhigh hlow hmiddle hle' hlt ih =>
      exact ih (h.left hxs (by omega) hlt) hle'
  | case3 low high hhigh hlow hmiddle hle' hgt ih =>
      exact ih (h.right hxs (by omega) hgt) (by omega)
  | case4 low high hhigh hlow =>
      obtain rfl : low = high := by omega
      exact .inr ⟨low, hhigh, rfl, h⟩

/-- **An element is found if it is in the sequence, and otherwise the place is found that it belongs to.** -/
theorem search_cases (hxs : Increasing xs) (a : α) :
    (∃ i, search a xs = .found i ∧ a ∈ xs) ∨
      ∃ i ≤ xs.length, search a xs = .missing i ∧ Parts a xs i i := by
  refine searchBetween_cases hxs (Nat.le_refl _) ⟨?_, ?_⟩ (Nat.zero_le _)
  · simp
  · simp

lemma contains_iff (hxs : Increasing xs) : contains xs a = true ↔ a ∈ xs := by
  rw [contains]
  rcases search_cases hxs a with ⟨i, hfound, ha⟩ | ⟨i, -, hmissing, hparts⟩
  · rw [hfound]
    simp [ha]
  · rw [hmissing]
    simp [hparts.not_mem]

lemma isSubset_iff (hys : Increasing ys) : isSubset xs ys = true ↔ ∀ a ∈ xs, a ∈ ys := by
  simp only [isSubset, List.all_eq_true, contains_iff hys]

/-! ## What a call does -/

/-- The sequence goes up and has the elements of the set and no others. -/
structure Holds (xs : List α) (S : Set α) : Prop where
  increasing : Increasing xs
  members : ∀ a, a ∈ xs ↔ a ∈ S

/-- **Insertion answers whether the element was absent, and puts it where the order has it.** -/
lemma insert_cases (hxs : Increasing xs) (a : α) :
    (insert xs a = (false, xs) ∧ a ∈ xs) ∨
      ∃ i, insert xs a = (true, xs.take i ++ a :: xs.drop i) ∧ Parts a xs i i := by
  rw [insert]
  rcases search_cases hxs a with ⟨i, hfound, ha⟩ | ⟨i, hi, hmissing, hparts⟩
  · rw [hfound]
    exact .inl ⟨rfl, ha⟩
  · rw [hmissing]
    refine .inr ⟨i, ?_, hparts⟩
    show (true, xs.insertIdx i a) = _
    rw [insertIdx_eq_take_append hi]

lemma Holds.insert {S : Set α} (h : Holds xs S) (a : α) :
    Holds (insert xs a).2 {b | b = a ∨ b ∈ S} ∧ ((insert xs a).1 = true ↔ a ∉ S) := by
  rcases insert_cases h.increasing a with ⟨heq, ha⟩ | ⟨i, heq, hparts⟩
  · rw [heq]
    refine ⟨⟨h.increasing, fun b => ?_⟩, by simp [← h.members, ha]⟩
    rw [h.members]
    refine (or_iff_right_of_imp ?_).symm
    rintro rfl
    exact (h.members b).1 ha
  · rw [heq]
    refine ⟨⟨hparts.increasing h.increasing, fun b => ?_⟩, by simp [← h.members, hparts.not_mem]⟩
    have hsplit : b ∈ xs ↔ b ∈ xs.take i ∨ b ∈ xs.drop i := by
      rw [← List.mem_append, List.take_append_drop]
    show _ ↔ b = a ∨ b ∈ S
    rw [← h.members, hsplit, List.mem_append, List.mem_cons, or_left_comm]

section Batches

variable [DecidableEq α]

/-- In a sorted batch the equal elements are next to each other, so leaving out an element that is equal to
the one before it leaves each element once. -/
lemma collect_eq_dedup (l : List α) :
    collect l = (l.mergeSort fun a b => (compare a b).isLE).dedup := by
  have : Std.Antisymm fun a b : α => (compare a b).isLE = true :=
    ⟨fun a b hab hba => LawfulEqOrd.eq_of_compare (OrientedCmp.isLE_antisymm hab hba)⟩
  exact (pairwise_isLE_mergeSort l).destutter_eq_dedup

lemma increasing_collect (l : List α) : Increasing (collect l) := by
  have hdistinct := List.nodup_dedup (l.mergeSort fun a b => (compare a b).isLE)
  rw [collect_eq_dedup, Increasing]
  refine (((pairwise_isLE_mergeSort l).sublist (List.dedup_sublist _)).and hdistinct).imp ?_
  rintro a b ⟨hle, hne⟩
  cases hab : compare a b with
  | lt => rfl
  | eq => exact absurd (LawfulEqOrd.eq_of_compare hab) hne
  | gt => simp [hab] at hle

lemma mem_collect {l : List α} : a ∈ collect l ↔ a ∈ l := by
  rw [collect_eq_dedup, List.mem_dedup, (List.mergeSort_perm ..).mem_iff]

end Batches

end InOrder

/-! ## What is supplied -/

namespace SetCall

variable {α : Type}

/-- The elements that a call brings. -/
def elements : SetCall α → List α
  | .insert a => [a]
  | .extend l => l
  | .collect l => l

/-- Whether a call keeps what was there before. -/
def Adds : SetCall α → Prop
  | .insert _ => True
  | .extend _ => True
  | .collect _ => False

/-- What is in a set after a call. -/
def supply (S : Set α) (call : SetCall α) : Set α := {a | a ∈ call.elements ∨ call.Adds ∧ a ∈ S}

end SetCall

/-- The elements that some call brings, unless a later call begins again. -/
def supplied {α : Type} (calls : List (SetCall α)) : Set α :=
  {a | ∃ earlier call later,
    calls = earlier ++ call :: later ∧ a ∈ call.elements ∧ ∀ c ∈ later, c.Adds}

lemma supplied_nil {α : Type} : supplied ([] : List (SetCall α)) = ∅ := by
  simp [supplied]

lemma supplied_concat {α : Type} (calls : List (SetCall α)) (call : SetCall α) :
    supplied (calls ++ [call]) = call.supply (supplied calls) := by
  ext a
  constructor
  · rintro ⟨earlier, c, later, heq, ha, hlater⟩
    -- The call that brings the element is the last one or comes before it.
    rcases List.eq_nil_or_concat later with rfl | ⟨later, d, rfl⟩
    · obtain ⟨-, hc⟩ := List.append_inj' heq rfl
      rw [← List.singleton_inj.1 hc] at ha
      exact .inl ha
    · have heq' : calls ++ [call] = (earlier ++ c :: later) ++ [d] := by
        rw [heq]
        simp
      obtain ⟨hcalls, hd⟩ := List.append_inj' heq' rfl
      rw [← List.singleton_inj.1 hd] at hlater
      refine .inr ⟨hlater call (by simp), earlier, c, later, hcalls, ha, ?_⟩
      intro e he
      exact hlater e (by simp [he])
  · rintro (ha | ⟨hadds, earlier, c, later, rfl, ha, hlater⟩)
    · exact ⟨calls, call, [], rfl, ha, by simp⟩
    · refine ⟨earlier, c, later ++ [call], by simp, ha, ?_⟩
      intro d hd
      rcases List.mem_append.1 hd with hd | hd
      · exact hlater d hd
      · rwa [List.mem_singleton.1 hd]

section Agreement

variable {α : Type} [Ord α] [TransOrd α] [LawfulEqOrd α]

/-- The sorted set after a call. -/
def SortedSet.perform (s : SortedSet α) : SetCall α → SortedSet α
  | .insert a => (s.insertNew a).2
  | .extend l => s.insertMany l
  | .collect l => SortedSet.ofList l

/-- The sorted set after calls. -/
def SortedSet.after (calls : List (SetCall α)) : SortedSet α := calls.foldl SortedSet.perform ∅

/-- A call leaves in the sorted set what it should have. -/
lemma SortedSet.mem_perform {s : SortedSet α} {call : SetCall α} {a : α} :
    a ∈ s.perform call ↔ a ∈ call.supply {b | b ∈ s} := by
  cases call with
  | insert b =>
      show a ∈ s.insert b ↔ a ∈ [b] ∨ True ∧ a ∈ s
      rw [mem_insert, List.mem_singleton, true_and]
  | extend l =>
      show a ∈ s.insertMany l ↔ a ∈ l ∨ True ∧ a ∈ s
      rw [mem_insertMany, true_and]
  | collect l =>
      show a ∈ ofList l ↔ a ∈ l ∨ False ∧ a ∈ s
      rw [mem_ofList, false_and, or_false]

lemma SortedSet.mem_after {calls : List (SetCall α)} {a : α} :
    a ∈ SortedSet.after calls ↔ a ∈ supplied calls := by
  induction calls using List.reverseRecOn generalizing a with
  | nil => simp [supplied_nil, SortedSet.after]
  | append_singleton calls call ih =>
      have hS : {b | b ∈ SortedSet.after calls} = supplied calls := Set.ext fun _ => ih
      rw [SortedSet.after, List.foldl_append, List.foldl_cons, List.foldl_nil, ← SortedSet.after,
        mem_perform, hS, supplied_concat]

variable {s t : SortedSet α} {xs ys : List α} {S T : Set α}

omit [LawfulEqOrd α] in
/-- Of a set of elements there is one sequence in order. -/
lemma InOrder.Holds.eq (hxs : InOrder.Holds xs S) (hys : InOrder.Holds ys S) : xs = ys :=
  eq_of_increasing id hxs.increasing hys.increasing fun a => by rw [hxs.members, hys.members]

/-- A sorted set, a sequence that is searched by halving and a set of elements that cannot be told apart. -/
structure Agree (s : SortedSet α) (xs : List α) (S : Set α) : Prop where
  increasing : InOrder.Increasing xs
  listing : s.toList = xs
  members : ∀ a, a ∈ xs ↔ a ∈ S
  insertion : ∀ a, InOrder.insert xs a = ((s.insertNew a).1, (s.insertNew a).2.toList)
  answer : ∀ a, (s.insertNew a).1 = true ↔ a ∉ S
  containment : ∀ a, InOrder.contains xs a = s.contains a
  contained : ∀ a, s.contains a = true ↔ a ∈ S

/-- What holds the same elements cannot be told apart. -/
lemma InOrder.Holds.agree (hxs : InOrder.Holds xs S) (hs : ∀ a, a ∈ s ↔ a ∈ S) : Agree s xs S where
  increasing := hxs.increasing
  listing := InOrder.Holds.eq ⟨s.sorted, hs⟩ hxs
  members := hxs.members
  insertion a := by
    obtain ⟨hholds, hanswer⟩ := hxs.insert a
    refine Prod.ext ?_ ?_
    · show (InOrder.insert xs a).1 = !s.contains a
      rw [Bool.eq_iff_iff, hanswer, Bool.not_eq_true', SortedSet.not_contains_iff, hs]
    · refine hholds.eq ⟨(s.insert a).sorted, fun b => ?_⟩
      show b ∈ s.insert a ↔ b = a ∨ b ∈ S
      rw [SortedSet.mem_insert, hs]
  answer a := by
    show (!s.contains a) = true ↔ a ∉ S
    rw [Bool.not_eq_true', SortedSet.not_contains_iff, hs]
  containment a := by
    rw [Bool.eq_iff_iff, InOrder.contains_iff hxs.increasing, SortedSet.contains_iff_mem, hxs.members, hs]
  contained a := by
    rw [SortedSet.contains_iff_mem, hs]

/-- What two sets, with the elements of `S` and of `T`, answer about each other. -/
structure Compared (s t : SortedSet α) (xs ys : List α) (S T : Set α) : Prop where
  inclusion : InOrder.isSubset xs ys = s.isSubset t
  included : s.isSubset t = true ↔ S ⊆ T
  equality : xs = ys ↔ s = t
  equal : s = t ↔ S = T
  comparison : compare s t = .eq ↔ S = T

/-- Equal sequences are sequences of equal sets, so nothing but the elements counts. -/
lemma Agree.compared (hs : Agree s xs S) (ht : Agree t ys T) : Compared s t xs ys S T := by
  have hmem : ∀ a, a ∈ s ↔ a ∈ S := fun a => by rw [← hs.contained, SortedSet.contains_iff_mem]
  have hmem' : ∀ a, a ∈ t ↔ a ∈ T := fun a => by rw [← ht.contained, SortedSet.contains_iff_mem]
  have hequal : s = t ↔ S = T := by
    constructor
    · rintro rfl
      exact Set.ext fun a => (hmem a).symm.trans (hmem' a)
    · rintro rfl
      exact SortedSet.ext fun a => (hmem a).trans (hmem' a).symm
  have hlist : s.toList = t.toList ↔ s = t := by
    cases s
    cases t
    exact (SortedSet.mk.injEq ..).to_iff.symm
  refine ⟨?_, ?_, ?_, hequal, ?_⟩
  · rw [Bool.eq_iff_iff, InOrder.isSubset_iff ht.increasing, SortedSet.isSubset_iff, ← hs.listing,
      ← ht.listing]
    rfl
  · rw [SortedSet.isSubset_iff]
    exact forall_congr' fun a => by rw [hmem, hmem']
  · rw [← hs.listing, ← ht.listing, hlist]
  · rw [← hequal, ← hlist]
    show compare s.toList t.toList = .eq ↔ s.toList = t.toList
    exact LawfulEqOrd.compare_eq_iff_eq

variable [DecidableEq α]

/-- A call leaves the sequence in order, with the elements that it should have. -/
theorem InOrder.Holds.perform (h : InOrder.Holds xs S) (call : SetCall α) :
    InOrder.Holds (InOrder.perform xs call) (call.supply S) := by
  cases call with
  | insert a =>
      have hS : (SetCall.insert a).supply S = {b | b = a ∨ b ∈ S} := by
        ext b
        simp [SetCall.supply, SetCall.elements, SetCall.Adds]
      rw [hS]
      exact (h.insert a).1
  | extend l =>
      refine ⟨InOrder.increasing_collect _, fun a => ?_⟩
      show a ∈ InOrder.collect (xs ++ l) ↔ a ∈ l ∨ True ∧ a ∈ S
      rw [InOrder.mem_collect, List.mem_append, h.members, true_and, or_comm]
  | collect l =>
      refine ⟨InOrder.increasing_collect _, fun a => ?_⟩
      show a ∈ InOrder.collect l ↔ a ∈ l ∨ False ∧ a ∈ S
      rw [InOrder.mem_collect, false_and, or_false]

lemma InOrder.holds_after (calls : List (SetCall α)) :
    InOrder.Holds (InOrder.after calls) (supplied calls) := by
  induction calls using List.reverseRecOn with
  | nil =>
      rw [supplied_nil]
      exact ⟨List.Pairwise.nil, by simp [InOrder.after]⟩
  | append_singleton calls call ih =>
      rw [InOrder.after, List.foldl_append, supplied_concat]
      exact ih.perform call

/-- **After any calls the sequence is the sorted set, either has what was supplied, and they are equal to
another such pair when the same was supplied.** -/
theorem agree_after (calls : List (SetCall α)) :
    Agree (SortedSet.after calls) (InOrder.after calls) (supplied calls) ∧
      ∀ others : List (SetCall α),
        Compared (SortedSet.after calls) (SortedSet.after others) (InOrder.after calls)
          (InOrder.after others) (supplied calls) (supplied others) := by
  have hagree (calls : List (SetCall α)) :
      Agree (SortedSet.after calls) (InOrder.after calls) (supplied calls) :=
    (InOrder.holds_after calls).agree fun _ => SortedSet.mem_after
  exact ⟨hagree calls, fun others => (hagree calls).compared (hagree others)⟩

/-- Nine, three and five in two batches with repetitions, and the same one at a time in another order after
a batch that is put aside. -/
theorem agree_after_repeated :
    SortedSet.after [.extend [9, 3, 9], .extend [5, 3, 5, 5]] =
        SortedSet.after [SetCall.insert 1, .collect [5, 9], .insert 3, .insert 9] ∧
      supplied [.extend [9, 3, 9], .extend [5, 3, 5, 5]] =
        supplied [SetCall.insert 1, .collect [5, 9], .insert 3, .insert 9] := by
  have hequal : SortedSet.after [.extend [9, 3, 9], .extend [5, 3, 5, 5]] =
      SortedSet.after [SetCall.insert 1, .collect [5, 9], .insert 3, .insert 9] := by
    decide
  exact ⟨hequal, ((agree_after _).2 _).equal.1 hequal⟩

end Agreement

end FiniteAutomata
