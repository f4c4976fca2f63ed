import FiniteAutomata.SortedSet

/-!
# Sorted maps

A finite map kept as the list of its entries in increasing order of their keys. The states of an
automaton with their flags are such a map, and so is the table of source texts.

* `SortedMap.insert` replaces the value of a key, `SortedMap.insertIfNew` keeps an earlier one.
* `SortedMap.get?_insert`, `SortedMap.get?_insertIfNew` — what a look-up finds after an insertion.
-/

namespace FiniteAutomata

open Std

/-- A map from `κ` to `ν` as a list of entries with strictly increasing keys. -/
structure SortedMap (κ ν : Type) [Ord κ] where
  /-- The entries in increasing order of their keys. -/
  toList : List (κ × ν)
  sorted : toList.Pairwise fun a b => compare a.1 b.1 = .lt

namespace SortedMap

variable {κ ν : Type} [Ord κ]

/-- The map without entries. -/
def empty : SortedMap κ ν := ⟨[], .nil⟩

instance : EmptyCollection (SortedMap κ ν) := ⟨empty⟩

instance [DecidableEq κ] [DecidableEq ν] : DecidableEq (SortedMap κ ν) := fun s t =>
  decidable_of_iff (s.toList = t.toList) (by cases s; cases t; simp)

/-- The number of entries. -/
def size (m : SortedMap κ ν) : Nat := m.toList.length

/-- The value of the key `k`. -/
def get? (m : SortedMap κ ν) (k : κ) : Option ν :=
  (m.toList.find? fun e => compare k e.1 == .eq).map (·.2)

/-- Whether there is an entry for `k`. -/
def contains (m : SortedMap κ ν) (k : κ) : Bool := (m.get? k).isSome

/-- The keys. -/
def keys (m : SortedMap κ ν) : SortedSet κ :=
  ⟨m.toList.map (·.1), List.pairwise_map.2 m.sorted⟩

/-- The keys whose values satisfy `p`. -/
def keysWhere (p : ν → Bool) (m : SortedMap κ ν) : SortedSet κ :=
  ⟨(m.toList.filter fun e => p e.2).map (·.1), List.pairwise_map.2 (m.sorted.filter _)⟩

/-! ## Insertion -/

/-- Puts an entry at its place, in the stead of an entry with an equal key. -/
def insertEntry (k : κ) (v : ν) : List (κ × ν) → List (κ × ν)
  | [] => [(k, v)]
  | e :: l =>
    match compare k e.1 with
    | .lt => (k, v) :: e :: l
    | .eq => (k, v) :: l
    | .gt => e :: insertEntry k v l

theorem key_eq_or_mem_of_mem_insertEntry [LawfulEqOrd κ] {k : κ} {v : ν} {x : κ × ν} :
    ∀ {l : List (κ × ν)}, x ∈ insertEntry k v l → x.1 = k ∨ x ∈ l
  | [], h => by simp_all [insertEntry]
  | e :: l, h => by
    rw [insertEntry] at h
    split at h
    · rcases List.mem_cons.1 h with rfl | h
      · exact .inl rfl
      · exact .inr h
    · rcases List.mem_cons.1 h with rfl | h
      · exact .inl rfl
      · exact .inr (List.mem_cons_of_mem _ h)
    · rcases List.mem_cons.1 h with rfl | h
      · exact .inr (List.mem_cons_self ..)
      · exact (key_eq_or_mem_of_mem_insertEntry h).imp id (List.mem_cons_of_mem _)

theorem pairwise_insertEntry [TransOrd κ] [LawfulEqOrd κ] {k : κ} {v : ν} :
    ∀ {l : List (κ × ν)}, l.Pairwise (fun a b => compare a.1 b.1 = .lt) →
      (insertEntry k v l).Pairwise fun a b => compare a.1 b.1 = .lt
  | [], _ => by simp [insertEntry]
  | e :: l, h => by
    rw [List.pairwise_cons] at h
    rw [insertEntry]
    split
    · next hlt =>
      refine List.pairwise_cons.2 ⟨fun x hx => ?_, List.pairwise_cons.2 h⟩
      rcases List.mem_cons.1 hx with rfl | hx
      · exact hlt
      · exact TransCmp.lt_trans hlt (h.1 x hx)
    · next heq =>
      refine List.pairwise_cons.2 ⟨fun x hx => ?_, h.2⟩
      obtain rfl := LawfulEqOrd.eq_of_compare heq
      exact h.1 x hx
    · next hgt =>
      refine List.pairwise_cons.2 ⟨fun x hx => ?_, pairwise_insertEntry h.2⟩
      rcases key_eq_or_mem_of_mem_insertEntry hx with hk | hx
      · rw [hk]; exact OrientedCmp.lt_of_gt hgt
      · exact h.1 x hx

section Insert

variable [TransOrd κ] [LawfulEqOrd κ]

/-- The map in which `k` has the value `v`. -/
def insert (m : SortedMap κ ν) (k : κ) (v : ν) : SortedMap κ ν :=
  ⟨insertEntry k v m.toList, pairwise_insertEntry m.sorted⟩

/-- The map with an entry for `k`, which is the old one if there is one. -/
def insertIfNew (m : SortedMap κ ν) (k : κ) (v : ν) : SortedMap κ ν :=
  if m.contains k then m else m.insert k v

end Insert

/-! ## Look-up -/

@[simp] theorem get?_empty (k : κ) : (∅ : SortedMap κ ν).get? k = none := rfl

theorem contains_eq_true_iff {m : SortedMap κ ν} {k : κ} :
    m.contains k = true ↔ ∃ v, m.get? k = some v := by
  rw [contains, Option.isSome_iff_exists]

theorem mem_toList_iff [TransOrd κ] [LawfulEqOrd κ] {m : SortedMap κ ν} {k : κ} {v : ν} :
    (k, v) ∈ m.toList ↔ m.get? k = some v := by
  obtain ⟨l, hl⟩ := m
  simp only [get?]
  induction l with
  | nil => simp
  | cons e l ih =>
    rw [List.pairwise_cons] at hl
    rw [List.mem_cons, List.find?_cons]
    split
    · next h =>
      have hk : k = e.1 := LawfulEqOrd.eq_of_compare (by simpa using h)
      constructor
      · rintro (rfl | hmem)
        · rfl
        · exact absurd (hk ▸ hl.1 _ hmem) (by simp [ReflCmp.compare_self])
      · intro hv
        exact .inl (Prod.ext hk (by simpa using hv.symm))
    · next h =>
      rw [← ih hl.2]
      refine or_iff_right fun he => ?_
      rw [← he] at h
      simp [ReflCmp.compare_self] at h

theorem mem_keys {m : SortedMap κ ν} [TransOrd κ] [LawfulEqOrd κ] {k : κ} :
    k ∈ m.keys ↔ m.contains k = true := by
  rw [contains_eq_true_iff]
  simp only [← mem_toList_iff]
  simp [SortedSet.mem_def, keys]

theorem mem_keysWhere {m : SortedMap κ ν} [TransOrd κ] [LawfulEqOrd κ] {p : ν → Bool} {k : κ} :
    k ∈ m.keysWhere p ↔ ∃ v, m.get? k = some v ∧ p v = true := by
  simp only [← mem_toList_iff]
  simp [SortedSet.mem_def, keysWhere]

section Insert

variable [TransOrd κ] [LawfulEqOrd κ] [DecidableEq κ]

theorem get?_insert {m : SortedMap κ ν} {k x : κ} {v : ν} :
    (m.insert k v).get? x = if x = k then some v else m.get? x := by
  obtain ⟨l, hl⟩ := m
  simp only [get?, insert]
  induction l with
  | nil =>
    by_cases hx : x = k
    · simp [insertEntry, hx, ReflCmp.compare_self]
    · simp [insertEntry, hx]
  | cons e l ih =>
    rw [List.pairwise_cons] at hl
    rw [insertEntry]
    split
    · by_cases hx : x = k
      · simp [hx, ReflCmp.compare_self]
      · simp [List.find?_cons, hx]
    · next heq =>
      have hk := LawfulEqOrd.eq_of_compare heq
      by_cases hx : x = k
      · simp [hx, ReflCmp.compare_self]
      · simp [hx, ← hk]
    · next hgt =>
      rw [List.find?_cons]
      split
      · next h =>
        have hx : x = e.1 := LawfulEqOrd.eq_of_compare (by simpa using h)
        have hne : x ≠ k := by
          rintro rfl
          rw [hx, ReflOrd.compare_self] at hgt
          cases hgt
        rw [if_neg hne, List.find?_cons, h]
      · next h =>
        rw [ih hl.2, List.find?_cons, h]

theorem get?_insertIfNew {m : SortedMap κ ν} {k x : κ} {v : ν} :
    (m.insertIfNew k v).get? x = if x = k then some ((m.get? k).getD v) else m.get? x := by
  rw [insertIfNew]
  split
  · next h =>
    obtain ⟨w, hw⟩ := contains_eq_true_iff.1 h
    by_cases hx : x = k
    · simp [hx, hw]
    · simp [hx]
  · next h =>
    have hk : m.get? k = none := by
      cases hm : m.get? k with
      | none => rfl
      | some w => exact absurd (contains_eq_true_iff.2 ⟨w, hm⟩) h
    rw [get?_insert, hk]
    rfl

end Insert

end SortedMap

end FiniteAutomata
