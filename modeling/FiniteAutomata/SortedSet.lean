/-!
# Sorted sets

A finite set kept as the strictly increasing list of its members. Two sets with the same
members are the same value, so a set of states can serve as the identity of a state of a
deterministic automaton, and every listing that the library prints comes out in one order.

* `SortedSet.ofList`, `SortedSet.insert`, `SortedSet.union` — the ways to build a set.
* `SortedSet.mem_insert`, `SortedSet.mem_union`, `SortedSet.mem_ofList`, `SortedSet.mem_filter` —
  what each operation does to membership.
-/

namespace FiniteAutomata

open Std

/-- A set of `α` as a strictly increasing list. The order is that of `compare`. -/
structure SortedSet (α : Type) [Ord α] where
  /-- The members in increasing order. -/
  toList : List α
  sorted : toList.Pairwise fun a b => compare a b = .lt

namespace SortedSet

/-! ## Sorted lists -/

variable {α : Type} [Ord α]

/-- Puts `a` at its place in an increasing list; an equal element already there is kept. -/
def insertSorted (a : α) : List α → List α
  | [] => [a]
  | b :: l =>
    match compare a b with
    | .lt => a :: b :: l
    | .eq => b :: l
    | .gt => b :: insertSorted a l

theorem mem_insertSorted [LawfulEqOrd α] {a x : α} :
    ∀ {l : List α}, x ∈ insertSorted a l ↔ x = a ∨ x ∈ l
  | [] => by simp [insertSorted]
  | b :: l => by
    rw [insertSorted]
    split
    · simp
    · next h => simp [LawfulEqOrd.eq_of_compare h]
    · simp [mem_insertSorted (l := l), or_left_comm]

theorem pairwise_insertSorted [TransOrd α] [LawfulEqOrd α] {a : α} :
    ∀ {l : List α}, l.Pairwise (fun a b => compare a b = .lt) →
      (insertSorted a l).Pairwise fun a b => compare a b = .lt
  | [], _ => by simp [insertSorted]
  | b :: l, h => by
    rw [List.pairwise_cons] at h
    rw [insertSorted]
    split
    · next hab =>
      refine List.pairwise_cons.2 ⟨fun x hx => ?_, List.pairwise_cons.2 h⟩
      rcases List.mem_cons.1 hx with rfl | hx
      · exact hab
      · exact TransCmp.lt_trans hab (h.1 x hx)
    · exact List.pairwise_cons.2 h
    · next hab =>
      refine List.pairwise_cons.2 ⟨fun x hx => ?_, pairwise_insertSorted h.2⟩
      rcases mem_insertSorted.1 hx with rfl | hx
      · exact OrientedCmp.lt_of_gt hab
      · exact h.1 x hx

/-! ## Building sets -/

/-- The set without members. -/
def empty : SortedSet α := ⟨[], .nil⟩

instance : EmptyCollection (SortedSet α) := ⟨empty⟩

instance : Membership α (SortedSet α) := ⟨fun s a => a ∈ s.toList⟩

instance [DecidableEq α] : DecidableEq (SortedSet α) := fun s t =>
  decidable_of_iff (s.toList = t.toList) (by cases s; cases t; simp)

/-- Sets are ordered like the lists of their members: by the first place where they differ. -/
instance : Ord (SortedSet α) := ⟨fun s t => compare s.toList t.toList⟩

/-- The number of members. -/
def size (s : SortedSet α) : Nat := s.toList.length

/-- Whether the set has no members. -/
def isEmpty (s : SortedSet α) : Bool := s.toList.isEmpty

/-- Whether `a` is a member. -/
def contains (s : SortedSet α) (a : α) : Bool := s.toList.any fun b => compare a b == .eq

/-- Whether every member of `s` is a member of `t`. -/
def isSubset (s t : SortedSet α) : Bool := s.toList.all t.contains

/-- The members that satisfy `p`. -/
def filter (p : α → Bool) (s : SortedSet α) : SortedSet α :=
  ⟨s.toList.filter p, s.sorted.filter p⟩

section Insert

variable [TransOrd α] [LawfulEqOrd α]

/-- The set with `a` added. -/
def insert (s : SortedSet α) (a : α) : SortedSet α :=
  ⟨insertSorted a s.toList, pairwise_insertSorted s.sorted⟩

/-- The set with `a` added, and whether `a` was absent before. -/
def insertNew (s : SortedSet α) (a : α) : Bool × SortedSet α :=
  (!s.contains a, s.insert a)

/-- The set with all elements of a list added. The list may be in any order and may repeat
elements. -/
def insertMany (s : SortedSet α) (l : List α) : SortedSet α :=
  l.foldl insert s

/-- The set of the elements of a list. -/
def ofList (l : List α) : SortedSet α := insertMany ∅ l

/-- The members of either set. -/
def union (s t : SortedSet α) : SortedSet α := s.insertMany t.toList

instance : Union (SortedSet α) := ⟨union⟩

end Insert

/-- The members in braces, each written by `f`, separated by commas: `{a, b}`. -/
def render (f : α → String) (s : SortedSet α) : String :=
  "\x7b" ++ ", ".intercalate (s.toList.map f) ++ "\x7d"

/-! ## Membership -/

theorem mem_def {s : SortedSet α} {a : α} : a ∈ s ↔ a ∈ s.toList := Iff.rfl

@[simp] theorem mem_toList {s : SortedSet α} {a : α} : a ∈ s.toList ↔ a ∈ s := Iff.rfl

@[simp] theorem not_mem_empty (a : α) : ¬ a ∈ (∅ : SortedSet α) := by
  simp [mem_def, EmptyCollection.emptyCollection, empty]

@[simp] theorem contains_iff_mem [TransOrd α] [LawfulEqOrd α] {s : SortedSet α} {a : α} :
    s.contains a = true ↔ a ∈ s := by
  simp only [contains, List.any_eq_true, beq_iff_eq, mem_def]
  exact ⟨fun ⟨b, hb, h⟩ => LawfulEqOrd.eq_of_compare h ▸ hb, fun h => ⟨a, h, ReflCmp.compare_self⟩⟩

@[simp] theorem not_contains_iff [TransOrd α] [LawfulEqOrd α] {s : SortedSet α} {a : α} :
    s.contains a = false ↔ ¬ a ∈ s := by
  rw [← contains_iff_mem, Bool.not_eq_true]

theorem isEmpty_iff {s : SortedSet α} : s.isEmpty = true ↔ ∀ a, ¬ a ∈ s := by
  rw [isEmpty, List.isEmpty_iff, List.eq_nil_iff_forall_not_mem]
  rfl

instance [TransOrd α] [LawfulEqOrd α] (a : α) (s : SortedSet α) : Decidable (a ∈ s) :=
  decidable_of_iff (s.contains a = true) contains_iff_mem

theorem isSubset_iff [TransOrd α] [LawfulEqOrd α] {s t : SortedSet α} :
    s.isSubset t = true ↔ ∀ a ∈ s, a ∈ t := by
  simp [isSubset]

@[simp] theorem mem_filter {p : α → Bool} {s : SortedSet α} {a : α} :
    a ∈ s.filter p ↔ a ∈ s ∧ p a = true :=
  List.mem_filter

section Insert

variable [TransOrd α] [LawfulEqOrd α]

@[simp] theorem mem_insert {s : SortedSet α} {a x : α} : x ∈ s.insert a ↔ x = a ∨ x ∈ s :=
  mem_insertSorted

@[simp] theorem mem_insertMany {s : SortedSet α} {l : List α} {x : α} :
    x ∈ s.insertMany l ↔ x ∈ l ∨ x ∈ s := by
  induction l generalizing s with
  | nil => simp [insertMany]
  | cons a l ih =>
    rw [insertMany, List.foldl_cons, ← insertMany, ih, mem_insert, List.mem_cons]
    grind

@[simp] theorem mem_ofList {l : List α} {x : α} : x ∈ ofList l ↔ x ∈ l := by
  simp [ofList]

@[simp] theorem mem_union {s t : SortedSet α} {x : α} : x ∈ s ∪ t ↔ x ∈ s ∨ x ∈ t := by
  change x ∈ s.insertMany t.toList ↔ _
  rw [mem_insertMany, mem_toList, or_comm]

end Insert

end SortedSet

end FiniteAutomata
