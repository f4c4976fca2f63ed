import FiniteAutomata.Proofs.Automaton.Labels
import FiniteAutomata.Proofs.Automaton.Reachable

/-!
# Automata in which every state is of use

An automaton is trim if it has one initial state and every state lies on a way from there to a final
state.  The automata of symbols are trim, and sequence, choice and repetition keep an automaton trim: a
way through a copy is the copy of a way, and the new edges on `epsilon` lead from one copy to the next.
Each of these edges is needed somewhere below.  Determinizing keeps an automaton trim as well: a set leads
to a final set because any one of its members leads to a final state, and the set moves along with it.

* `Leads`, `Trim` — states that lead to a final state, and automata without others.
* `Reachable.rename` — the copy of a way.
* `trim_ofSymbol`, `trim_concat`, `trim_union`, `trim_iterate` — what is trim.
* `Discovered.exists_reachable` — a set moves along with one of its members.
* **`trim_determinize`** — no state of the deterministic automaton is dead.
-/

namespace FiniteAutomata.Automaton

open Relation

variable {A B R : Automaton} {supply : LabelSupply} {S : StateSet} {i p q t x : Label} {s : Symbol}

/-! ## States of use -/

/-- A final state can be reached from the state. -/
def Leads (A : Automaton) (q : Label) : Prop := ∃ t ∈ A.final, A.Reachable q t

/-- Just one state is initial, some state is final, and every state can be reached from the initial
state and leads to a final state, along edges on any symbols. -/
structure Trim (A : Automaton) : Prop where
  initial : ∃! i, i ∈ A.initial
  final : ∃ t, t ∈ A.final
  reached : ∀ i ∈ A.initial, ∀ q, A.hasState q = true → A.Reachable i q
  leads : ∀ q, A.hasState q = true → A.Leads q

lemma leads_of_mem_final (h : t ∈ A.final) : A.Leads t := ⟨t, h, .refl⟩

lemma Leads.of_reachable (hreach : A.Reachable q t) (h : A.Leads t) : A.Leads q := by
  obtain ⟨r, hr, hrest⟩ := h
  exact ⟨r, hr, hreach.trans hrest⟩

/-- From the only initial state some final state is reached. -/
lemma trim_of_leads (hinitial : ∀ x, x ∈ A.initial ↔ x = i)
    (hreached : ∀ q, A.hasState q = true → A.Reachable i q)
    (hleads : ∀ q, A.hasState q = true → A.Leads q) : A.Trim := by
  have hi : i ∈ A.initial := (hinitial i).2 rfl
  obtain ⟨t, ht, -⟩ := hleads i (hasState_of_mem_initial hi)
  refine ⟨⟨i, hi, fun x hx => (hinitial x).1 hx⟩, ⟨t, ht⟩, fun x hx => ?_, hleads⟩
  rw [(hinitial x).1 hx]
  exact hreached

lemma reachable_of_edge (he : ⟨q, s, t⟩ ∈ A.edges) : A.Reachable q t := .single ⟨s, he⟩

/-- The copy of a way is a way. -/
lemma Reachable.rename {f : Label → Label} (hcopied : ∀ e ∈ A.edges, e.rename f ∈ R.edges)
    (h : A.Reachable q t) : R.Reachable (f q) (f t) := by
  induction h with
  | refl => exact .refl
  | tail _ hstep ih =>
      obtain ⟨s, he⟩ := hstep
      exact ih.tail ⟨s, hcopied _ he⟩

/-! ## Automata of symbols -/

lemma trim_ofEmptyWord : ofEmptyWord.Trim := by
  have hstate : ofEmptyWord.states.get? (LabelSupply.label 0) = some .both :=
    get?_ofEmptyWord.2 ⟨rfl, rfl⟩
  have honly : ∀ q, ofEmptyWord.hasState q = true → q = LabelSupply.label 0 := by
    intro q hq
    obtain ⟨f, hf⟩ := hasState_iff.1 hq
    exact (get?_ofEmptyWord.1 hf).1
  refine trim_of_leads (i := LabelSupply.label 0) ?_ ?_ ?_
  · intro x
    refine ⟨fun hx => honly x (hasState_of_mem_initial hx), ?_⟩
    rintro rfl
    exact mem_initial.2 ⟨_, hstate, rfl⟩
  · intro q hq
    rw [honly q hq]
    exact .refl
  · intro q hq
    rw [honly q hq]
    exact leads_of_mem_final (mem_final.2 ⟨_, hstate, rfl⟩)

/-- The edge with the symbol leads from one state to the other. -/
lemma trim_ofSymbol (s : Symbol) : (ofSymbol s).Trim := by
  by_cases hs : s = epsilon
  · rw [ofSymbol, if_pos hs]
    exact trim_ofEmptyWord
  · have hstate : ∀ q, (ofSymbol s).hasState q = true →
        q = LabelSupply.label 0 ∨ q = LabelSupply.label 1 := by
      intro q hq
      obtain ⟨f, hf⟩ := hasState_iff.1 hq
      exact ((get?_ofSymbol hs).1 hf).imp And.left And.left
    have hinitial : ∀ i, i ∈ (ofSymbol s).initial ↔ i = LabelSupply.label 0 := by
      intro i
      simp only [mem_initial, get?_ofSymbol hs]
      constructor
      · rintro ⟨f, ⟨rfl, -⟩ | ⟨-, rfl⟩, hf⟩
        · rfl
        · cases hf
      · rintro rfl
        exact ⟨_, .inl ⟨rfl, rfl⟩, rfl⟩
    have hfinal : LabelSupply.label 1 ∈ (ofSymbol s).final :=
      mem_final.2 ⟨_, (get?_ofSymbol hs).2 (.inr ⟨rfl, rfl⟩), rfl⟩
    have hway : (ofSymbol s).Reachable (LabelSupply.label 0) (LabelSupply.label 1) :=
      reachable_of_edge ((mem_edges_ofSymbol hs).2 rfl)
    refine trim_of_leads hinitial ?_ ?_
    · intro q hq
      rcases hstate q hq with rfl | rfl
      · exact .refl
      · exact hway
    · intro q hq
      rcases hstate q hq with rfl | rfl
      · exact ⟨_, hfinal, hway⟩
      · exact leads_of_mem_final hfinal

/-! ## Sequence -/

section Concat

lemma Reachable.concat_left (h : A.Reachable q t) :
    (A.concat B supply).1.Reachable (A.copyLabel supply q) (A.copyLabel supply t) :=
  h.rename fun e he => mem_edges_concat.2 (.inr (.inl ⟨e, he, rfl⟩))

lemma Reachable.concat_right (h : B.Reachable q t) :
    (A.concat B supply).1.Reachable (B.copyLabel (supply.after A) q)
      (B.copyLabel (supply.after A) t) :=
  h.rename fun e he => mem_edges_concat.2 (.inr (.inr ⟨e, he, rfl⟩))

/-- What leads to a final state on the left leads on to the beginning of the right copy. -/
lemma Leads.concat_left (h : A.Leads q) (hi : i ∈ B.initial) :
    (A.concat B supply).1.Reachable (A.copyLabel supply q) (B.copyLabel (supply.after A) i) := by
  obtain ⟨t, ht, hreach⟩ := h
  exact hreach.concat_left.trans (reachable_of_edge (mem_edges_concat.2 (.inl ⟨t, ht, i, hi, rfl⟩)))

lemma Leads.concat_right (h : B.Leads q) :
    (A.concat B supply).1.Leads (B.copyLabel (supply.after A) q) := by
  obtain ⟨t, ht, hreach⟩ := h
  exact ⟨_, mem_final_concat.2 ⟨t, ht, rfl⟩, hreach.concat_right⟩

/-- **A sequence of trim automata is trim.** -/
theorem trim_concat (hA : A.Trim) (hB : B.Trim) : (A.concat B supply).1.Trim := by
  obtain ⟨i, hi, hone⟩ := hA.initial
  obtain ⟨j, hj, -⟩ := hB.initial
  have hinitial : ∀ x, x ∈ (A.concat B supply).1.initial ↔ x = A.copyLabel supply i := by
    intro x
    rw [mem_initial_concat]
    constructor
    · rintro ⟨k, hk, rfl⟩
      rw [hone k hk]
    · rintro rfl
      exact ⟨i, hi, rfl⟩
  have hleads : A.Leads i := hA.leads i (hasState_of_mem_initial hi)
  refine trim_of_leads hinitial ?_ ?_
  · intro x hx
    rcases hasState_concat.1 hx with ⟨q, hq, rfl⟩ | ⟨q, hq, rfl⟩
    · exact (hA.reached i hi q hq).concat_left
    · exact (hleads.concat_left hj).trans (hB.reached j hj q hq).concat_right
  · intro x hx
    rcases hasState_concat.1 hx with ⟨q, hq, rfl⟩ | ⟨q, hq, rfl⟩
    · exact ((hB.leads j (hasState_of_mem_initial hj)).concat_right).of_reachable
        ((hA.leads q hq).concat_left hj)
    · exact (hB.leads q hq).concat_right

end Concat

/-! ## Choice -/

section Union

lemma Reachable.union_left (h : A.Reachable q t) :
    (A.union B supply).1.Reachable (A.copyLabel supply q) (A.copyLabel supply t) :=
  h.rename fun e he => mem_edges_union.2 (.inr (.inr (.inl ⟨e, he, rfl⟩)))

lemma Reachable.union_right (h : B.Reachable q t) :
    (A.union B supply).1.Reachable (B.copyLabel (supply.after A) q)
      (B.copyLabel (supply.after A) t) :=
  h.rename fun e he => mem_edges_union.2 (.inr (.inr (.inr ⟨e, he, rfl⟩)))

lemma Leads.union_left (h : A.Leads q) : (A.union B supply).1.Leads (A.copyLabel supply q) := by
  obtain ⟨t, ht, hreach⟩ := h
  exact ⟨_, mem_final_union.2 (.inl ⟨t, ht, rfl⟩), hreach.union_left⟩

lemma Leads.union_right (h : B.Leads q) :
    (A.union B supply).1.Leads (B.copyLabel (supply.after A) q) := by
  obtain ⟨t, ht, hreach⟩ := h
  exact ⟨_, mem_final_union.2 (.inr ⟨t, ht, rfl⟩), hreach.union_right⟩

/-- **A choice between trim automata is trim.** -/
theorem trim_union (hA : A.Trim) (hB : B.Trim) : (A.union B supply).1.Trim := by
  obtain ⟨i, hi, -⟩ := hA.initial
  obtain ⟨j, hj, -⟩ := hB.initial
  have hleft : (A.union B supply).1.Reachable (A.unionEntry B supply) (A.copyLabel supply i) :=
    reachable_of_edge (mem_edges_union.2 (.inl ⟨i, hi, rfl⟩))
  have hright : (A.union B supply).1.Reachable (A.unionEntry B supply)
      (B.copyLabel (supply.after A) j) :=
    reachable_of_edge (mem_edges_union.2 (.inr (.inl ⟨j, hj, rfl⟩)))
  refine trim_of_leads (fun x => mem_initial_union) ?_ ?_
  · intro x hx
    rcases hasState_union.1 hx with rfl | ⟨q, hq, rfl⟩ | ⟨q, hq, rfl⟩
    · exact .refl
    · exact hleft.trans (hA.reached i hi q hq).union_left
    · exact hright.trans (hB.reached j hj q hq).union_right
  · intro x hx
    rcases hasState_union.1 hx with rfl | ⟨q, hq, rfl⟩ | ⟨q, hq, rfl⟩
    · exact ((hA.leads i (hasState_of_mem_initial hi)).union_left).of_reachable hleft
    · exact (hA.leads q hq).union_left
    · exact (hB.leads q hq).union_right

end Union

/-! ## Repetition -/

section Iterate

lemma Reachable.iterate (h : A.Reachable q t) :
    (A.iterate supply).1.Reachable (A.copyLabel supply q) (A.copyLabel supply t) :=
  h.rename fun e he => mem_edges_iterate.2 (.inr (.inr ⟨e, he, rfl⟩))

/-- **A repetition of a trim automaton is trim.** -/
theorem trim_iterate (hA : A.Trim) : (A.iterate supply).1.Trim := by
  obtain ⟨i, hi, -⟩ := hA.initial
  have hentry : (A.iterate supply).1.Reachable (A.iterateEntry supply) (A.copyLabel supply i) :=
    reachable_of_edge (mem_edges_iterate.2 (.inl ⟨i, hi, rfl⟩))
  have hfinal : A.iterateEntry supply ∈ (A.iterate supply).1.final :=
    mem_final_iterate.2 (.inl rfl)
  refine trim_of_leads (fun x => mem_initial_iterate) ?_ ?_
  · intro x hx
    rcases hasState_iterate.1 hx with rfl | ⟨q, hq, rfl⟩
    · exact .refl
    · exact hentry.trans (hA.reached i hi q hq).iterate
  · intro x hx
    rcases hasState_iterate.1 hx with rfl | ⟨q, hq, rfl⟩
    · exact leads_of_mem_final hfinal
    · obtain ⟨t, ht, hreach⟩ := hA.leads q hq
      exact ⟨_, mem_final_iterate.2 (.inr ⟨t, ht, rfl⟩), hreach.iterate⟩

end Iterate

/-! ## Determinizing -/

/-- No edge on `epsilon` leaves a set that is found. -/
lemma Discovered.closed (hS : A.Discovered S) (hq : q ∈ S) (edge : A.EpsilonStep q t) : t ∈ S := by
  cases hS with
  | start => exact closure_closed hq edge
  | move _ hmove =>
      obtain ⟨-, rfl, -⟩ := mem_successors.1 hmove
      exact closure_closed hq edge

/-- A set moves along with a member: edges on `epsilon` stay in the set, and any other edge leads into
the set that the move on its symbol leads to. -/
lemma Discovered.exists_reachable (hreach : A.Reachable q t) :
    ∀ {S : StateSet}, A.Discovered S → q ∈ S → ∃ T, A.Discovered T ∧ t ∈ T ∧
      A.determinize.Reachable (A.setLabel S) (A.setLabel T) := by
  induction hreach using ReflTransGen.head_induction_on with
  | refl => exact fun {S} hS hq => ⟨S, hS, hq, .refl⟩
  | @head q p hstep _ ih =>
      intro S hS hq
      obtain ⟨s, edge⟩ := hstep
      by_cases hs : s = epsilon
      · subst hs
        exact ih hS (hS.closed hq edge)
      · have hp : p ∈ A.advance S s := subset_closure (mem_step.2 ⟨q, hq, edge⟩)
        have hletter : s ∈ A.letters :=
          mem_letters.2 ⟨(knows_iff.1 (knows_of_mem edge)).2.1, hs⟩
        have hmove : (s, A.advance S s) ∈ A.successors S := mem_successors.2 ⟨hletter, rfl, p, hp⟩
        obtain ⟨T, hT, ht, hrest⟩ := ih (.move hS hmove) hp
        have hedge := mem_edges_determinize.2 ⟨S, s, _, hS, hmove, rfl⟩
        exact ⟨T, hT, ht, (reachable_of_edge hedge).trans hrest⟩

lemma leads_setLabel (hleads : ∀ q, A.hasState q = true → A.Leads q) (hinitial : ∃ i, i ∈ A.initial)
    (hS : A.Discovered S) : A.determinize.Leads (A.setLabel S) := by
  obtain ⟨q, hq⟩ := hS.exists_mem hinitial
  obtain ⟨t, ht, hreach⟩ := hleads q (hS.hasState q hq)
  obtain ⟨T, hT, htT, hway⟩ := Discovered.exists_reachable hreach hS hq
  exact ⟨_, (setLabel_mem_final_iff hT).2 ⟨t, htT, ht⟩, hway⟩

/-- **Determinizing a trim automaton yields a trim automaton**: there are no dead states. -/
theorem trim_determinize (hA : A.Trim) : A.determinize.Trim := by
  refine trim_of_leads (fun x => mem_initial_determinize) ?_ ?_
  · intro q hq
    obtain ⟨S, hS, rfl⟩ := hasState_determinize.1 hq
    exact reachable_setLabel hS
  · intro q hq
    obtain ⟨S, hS, rfl⟩ := hasState_determinize.1 hq
    exact leads_setLabel hA.leads hA.initial.exists hS

end FiniteAutomata.Automaton
