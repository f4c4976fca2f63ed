import Mathlib.Data.List.Basic
import Mathlib.Data.List.Nodup
import Mathlib.Tactic.Common

/-!
# Lists, tables and failing computations

Facts that have nothing to do with automata and are used all over the library: where the members of a
list stand, what a list of pairs says when it is taken for a table, and when a computation of several
steps succeeds.

* `getElem?_mono`, `getElem?_concat_eq_some_iff`, `idxOf?_eq_some_iff_of_nodup` — places in a list.
* `lookup_eq_some_iff_mem` — in a list of pairs with distinct keys every pair is found.
* `bind_eq_ok_iff`, `bind_eq_error_iff` — a computation of two steps succeeds if both steps do, and
  fails at the first step that does not.
-/

namespace FiniteAutomata

/-! ## Lists -/

section Lists

variable {α : Type} {xs ys : List α} {a x : α} {k n : Nat}

lemma getElem?_mono (h : xs <+: ys) (ha : xs[k]? = some a) : ys[k]? = some a := by
  obtain ⟨hlt, rfl⟩ := List.getElem?_eq_some_iff.1 ha
  exact List.prefix_iff_getElem?.1 h k hlt

lemma getElem?_concat_eq_some_iff :
    (xs ++ [x])[k]? = some a ↔ xs[k]? = some a ∨ k = xs.length ∧ x = a := by
  rw [List.getElem?_append]
  split_ifs with hk
  · exact (or_iff_left fun h => absurd h.1 (Nat.ne_of_lt hk)).symm
  · have hnone : xs[k]? = none := List.getElem?_eq_none (Nat.le_of_not_lt hk)
    rw [hnone, List.getElem?_singleton]
    split_ifs with hlast
    · simp [show k = xs.length by omega]
    · simp [show k ≠ xs.length by omega]

/-- In a list without repetitions a member is found where it stands. -/
lemma idxOf?_eq_some_iff_of_nodup [DecidableEq α] (h : xs.Nodup) :
    xs.idxOf? a = some k ↔ xs[k]? = some a := by
  rw [List.idxOf?_eq_some_iff]
  constructor
  · rintro ⟨hk, rfl, -⟩
    exact List.getElem?_eq_getElem hk
  · intro hget
    obtain ⟨hk, rfl⟩ := List.getElem?_eq_some_iff.1 hget
    refine ⟨hk, rfl, fun j hj heq => ?_⟩
    have hjk : j = k := h.getElem_inj_iff.1 heq
    omega

/-- Members that contribute nothing may be left out. -/
lemma flatMap_filter_of_nil {β : Type} {p : α → Bool} {f : α → List β}
    (h : ∀ a ∈ xs, p a = false → f a = []) : (xs.filter p).flatMap f = xs.flatMap f := by
  induction xs with
  | nil => rfl
  | cons a xs ih =>
      have hxs := ih fun b hb => h b (List.mem_cons_of_mem a hb)
      cases hp : p a with
      | true => rw [List.filter_cons_of_pos hp, List.flatMap_cons, List.flatMap_cons, hxs]
      | false =>
          rw [List.filter_cons_of_neg (by simp [hp]), List.flatMap_cons, hxs,
            h a (List.mem_cons_self ..) hp, List.nil_append]

/-- A list that begins with `a` is cut behind one more member than the list without it. -/
lemma exists_cons_eq_append_iff {rest : List α} {p : List α → Prop} :
    (∃ here, a :: xs = here ++ rest ∧ here.length = n + 1 ∧ p here) ↔
      ∃ here, xs = here ++ rest ∧ here.length = n ∧ p (a :: here) := by
  constructor
  · rintro ⟨_ | ⟨b, here⟩, hxs, hlength, hp⟩
    · cases hlength
    · obtain ⟨rfl, rfl⟩ := List.cons.inj hxs
      exact ⟨here, rfl, Nat.succ.inj hlength, hp⟩
  · rintro ⟨here, rfl, rfl, hp⟩
    exact ⟨a :: here, rfl, rfl, hp⟩

/-- What holds of a place in a list and of the members before it holds of the first place, or of a place
behind it. -/
lemma exists_cons_eq_append_cons_iff {p : List α → α → Prop} :
    (∃ before b rest, a :: xs = before ++ b :: rest ∧ p before b) ↔
      p [] a ∨ ∃ before b rest, xs = before ++ b :: rest ∧ p (a :: before) b := by
  constructor
  · rintro ⟨_ | ⟨c, before⟩, b, rest, hxs, hp⟩
    · obtain ⟨rfl, rfl⟩ := List.cons.inj hxs
      exact .inl hp
    · obtain ⟨rfl, rfl⟩ := List.cons.inj hxs
      exact .inr ⟨before, b, rest, rfl, hp⟩
  · rintro (hp | ⟨before, b, rest, rfl, hp⟩)
    · exact ⟨[], a, xs, rfl, hp⟩
    · exact ⟨a :: before, b, rest, rfl, hp⟩

/-- Whether a relation holds along two lists depends only on what it looks at. -/
lemma forall₂_iff_of_map_eq {β γ δ : Type} {R : γ → β → Prop} {f : α → γ} {g : δ → γ} {l : List α}
    {k : List δ} {m : List β} (hmap : l.map f = k.map g) :
    List.Forall₂ (fun a b => R (f a) b) l m ↔ List.Forall₂ (fun d b => R (g d) b) k m := by
  rw [← List.forall₂_map_left_iff, hmap, List.forall₂_map_left_iff]

lemma forall₂_iff_eq_map {β : Type} {R : α → β → Prop} {g : α → β} {l : List α} {m : List β}
    (h : ∀ a ∈ l, ∀ b, R a b ↔ b = g a) : List.Forall₂ R l m ↔ m = l.map g := by
  induction l generalizing m with
  | nil => rw [List.forall₂_nil_left_iff, List.map_nil]
  | cons a l ih =>
      rw [List.forall_mem_cons] at h
      simp only [List.forall₂_cons_left_iff, h.1, ih h.2, List.map_cons]
      simp

lemma getElem?_of_forall₂ {β : Type} {R : α → β → Prop} {l : List α} {m : List β}
    (h : List.Forall₂ R l m) (ha : l[k]? = some a) : ∃ b, m[k]? = some b ∧ R a b := by
  induction h generalizing k with
  | nil => cases ha
  | cons hR _ ih =>
      cases k with
      | zero =>
          obtain rfl := Option.some.inj ha
          exact ⟨_, rfl, hR⟩
      | succ k => exact ih ha

lemma exists_of_mem_right {β : Type} {R : α → β → Prop} {l : List α} {m : List β} {b : β}
    (h : List.Forall₂ R l m) (hb : b ∈ m) : ∃ a ∈ l, R a b := by
  induction h with
  | nil => cases hb
  | @cons a b' l m hab _ ih =>
      rcases List.mem_cons.1 hb with rfl | hb
      · exact ⟨a, List.mem_cons_self .., hab⟩
      · obtain ⟨a', ha', hR⟩ := ih hb
        exact ⟨a', List.mem_cons_of_mem _ ha', hR⟩

/-- There is something for every member of a list if there is a list of such things. -/
lemma forall_exists_iff_forall₂ {β : Type} {R : α → β → Prop} {l : List α} :
    (∀ a ∈ l, ∃ b, R a b) ↔ ∃ m, List.Forall₂ R l m := by
  induction l with
  | nil => simp
  | cons a l ih =>
      rw [List.forall_mem_cons, ih]
      constructor
      · rintro ⟨⟨b, hb⟩, m, hm⟩
        exact ⟨b :: m, .cons hb hm⟩
      · rintro ⟨_, h⟩
        obtain ⟨b, m, hb, hm, -⟩ := List.forall₂_cons_left_iff.1 h
        exact ⟨⟨b, hb⟩, m, hm⟩

end Lists

/-! ## Tables -/

/-- In a list of pairs with distinct keys every pair is found. -/
lemma lookup_eq_some_iff_mem {α β : Type} [DecidableEq α] {a : α} {b : β} :
    ∀ {l : List (α × β)}, (l.map (·.1)).Nodup → (l.lookup a = some b ↔ (a, b) ∈ l)
  | [], _ => by simp
  | (c, d) :: l, h => by
      obtain ⟨hc, hl⟩ := List.nodup_cons.1 h
      rw [List.lookup_cons, List.mem_cons, Prod.mk.injEq]
      by_cases hac : a = c
      · subst hac
        have hb : (a, b) ∉ l := fun hmem => hc (List.mem_map_of_mem (f := (·.1)) hmem)
        simp [hb, eq_comm]
      · rw [beq_false_of_ne hac, lookup_eq_some_iff_mem hl]
        simp [hac]

/-! ## Computations -/

/-- A computation of two steps succeeds if both steps do. -/
lemma bind_eq_ok_iff {ε α β : Type} {x : Except ε α} {f : α → Except ε β} {b : β} :
    x >>= f = .ok b ↔ ∃ a, x = .ok a ∧ f a = .ok b := by
  cases x with
  | error e => exact iff_of_false (fun h => by cases h) (fun ⟨_, h, _⟩ => by cases h)
  | ok a => exact ⟨fun h => ⟨a, rfl, h⟩, fun ⟨_, h, hf⟩ => Except.ok.inj h ▸ hf⟩

/-- It fails if the first step does, or the second one behind it. -/
lemma bind_eq_error_iff {ε α β : Type} {x : Except ε α} {f : α → Except ε β} {e : ε} :
    x >>= f = .error e ↔ x = .error e ∨ ∃ a, x = .ok a ∧ f a = .error e := by
  cases x with
  | error d =>
      refine ⟨fun h => .inl (congrArg _ (Except.error.inj h)), ?_⟩
      rintro (h | ⟨_, h, -⟩)
      · exact congrArg _ (Except.error.inj h)
      · cases h
  | ok a =>
      refine ⟨fun h => .inr ⟨a, rfl, h⟩, ?_⟩
      rintro (h | ⟨_, h, hf⟩)
      · cases h
      · exact Except.ok.inj h ▸ hf

end FiniteAutomata
