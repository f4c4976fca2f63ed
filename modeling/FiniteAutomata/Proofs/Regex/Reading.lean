import FiniteAutomata.Proofs.Regex.Shape

/-!
# Reading undoes writing

The reader goes through a text once and keeps what stands to the left of the place.  Two facts make
it correct.  Whatever it has read so far can be recovered from its state (`Progress.chars`), so the
expression at the end has the text that was read.  And the text of a well-formed expression leads it
to that expression, from every state in which the expression may begin; this is an induction over
the expression with a statement for each rank.

* `Progress.chars`, `Progress.WellFormed` — what the state holds; both are kept by every step.
* `wellFormed_of_parse`, `render_of_parse` — what is read is well formed and has the text.
* `parse_render` — the text of a well-formed expression is read as that expression.
* `eq_of_render_eq` — no two well-formed expressions have the same text.
-/

namespace FiniteAutomata.Regex

variable {e x : Regex} {c : Char}

/-! ## The reader as a fold -/

lemma run_eq_ok_iff {s : Progress} {offset : Nat} {cs : List Char} :
    s.run offset cs = .ok e ↔ ∃ t, cs.foldlM Progress.step s = .ok t ∧ t.finish = .ok e := by
  induction cs generalizing s offset with
  | nil =>
      rw [Progress.run]
      change Except.mapError _ s.finish = .ok e ↔ ∃ t, Except.ok s = .ok t ∧ t.finish = .ok e
      constructor
      · intro h
        refine ⟨s, rfl, ?_⟩
        cases hfinish : s.finish with
        | error expected => rw [hfinish] at h; cases h
        | ok x => rw [hfinish] at h; exact congrArg _ (Except.ok.inj h)
      · rintro ⟨t, ht, hfinish⟩
        obtain rfl := Except.ok.inj ht
        rw [hfinish]
        rfl
  | cons c cs ih =>
      rw [Progress.run, List.foldlM_cons]
      cases hstep : s.step c with
      | ok t => exact ih
      | error expected =>
          refine iff_of_false (by simp) ?_
          rintro ⟨t, ht, -⟩
          cases ht

lemma parse_eq_ok_iff {text : String} :
    parse text = .ok e ↔
      ∃ t, text.toList.foldlM Progress.step .start = .ok t ∧ t.finish = .ok e := by
  rw [← @run_eq_ok_iff _ _ 0, parse]
  cases Progress.start.run 0 text.toList <;> simp [Except.mapError]

/-! ## What has been read -/

namespace Level

/-- The text of what stands to the left. -/
def chars (level : Level) : List Char :=
  (match level.alternatives with
    | none => []
    | some alternatives => alternatives.chars ++ ['|']) ++
  match level.factors with
    | none => []
    | some factors => factors.chars

/-- What stands to the left follows the rules for trees. -/
structure WellFormed (level : Level) : Prop where
  alternatives : ∀ a, level.alternatives = some a → a.WellFormed
  factors : ∀ f, level.factors = some f → f.WellFormed ∧ 1 ≤ f.rank

lemma wellFormed_empty : WellFormed .empty where
  alternatives _ h := by cases h
  factors _ h := by cases h

variable {level : Level}

lemma WellFormed.sequence (h : level.WellFormed) (hx : x.WellFormed) (hrank : 2 ≤ x.rank) :
    (level.sequence x).WellFormed ∧ 1 ≤ (level.sequence x).rank := by
  rw [Level.sequence]
  split
  · exact ⟨hx, by omega⟩
  · next factors hfactors => exact ⟨⟨h.factors factors hfactors, hx, hrank⟩, le_rfl⟩

lemma WellFormed.close (h : level.WellFormed) (hx : x.WellFormed) (hrank : 2 ≤ x.rank) :
    (level.close x).WellFormed := by
  rw [Level.close]
  split
  · exact (h.sequence hx hrank).1
  · next alternatives halternatives =>
    exact ⟨h.alternatives alternatives halternatives, h.sequence hx hrank⟩

lemma chars_close : (level.close x).chars = level.chars ++ x.chars := by
  obtain ⟨alternatives, factors⟩ := level
  cases alternatives <;> cases factors <;> simp [close, sequence, chars, Regex.chars]

end Level

namespace Progress

/-- The text of the open groups, as far as it stands to the left of the innermost. -/
def groupChars : List Level → List Char
  | [] => []
  | level :: groups => groupChars groups ++ level.chars ++ ['(']

/-- The text that led to a state. -/
def chars (s : Progress) : List Char :=
  groupChars s.groups ++ s.level.chars ++
    match s.operand with
    | none => []
    | some operand => operand.chars

/-- All parts of a state follow the rules for trees. -/
structure WellFormed (s : Progress) : Prop where
  groups : ∀ level ∈ s.groups, level.WellFormed
  level : s.level.WellFormed
  operand : ∀ x, s.operand = some x → x.WellFormed ∧ 2 ≤ x.rank

lemma wellFormed_start : WellFormed .start where
  groups := by simp [start]
  level := Level.wellFormed_empty
  operand _ h := by cases h

variable {s t : Progress}

lemma chars_ofChar : (ofChar c).chars = [c] := by
  rw [ofChar]
  split
  · next h => simp [Regex.chars, h]
  · rfl

lemma wellFormed_ofChar (h : isReserved c = false) : (ofChar c).WellFormed ∧ 2 ≤ (ofChar c).rank := by
  rw [ofChar]
  split
  · exact ⟨trivial, le_rfl⟩
  · next hspace => exact ⟨⟨h, hspace⟩, le_rfl⟩

lemma stepOperand_spec (hs : s.WellFormed) (hnone : s.operand = none)
    (h : s.stepOperand c = .ok t) : t.WellFormed ∧ t.chars = s.chars ++ [c] := by
  rw [stepOperand] at h
  split_ifs at h with hopen hreserved
  · obtain rfl := Except.ok.inj h
    refine ⟨⟨?_, Level.wellFormed_empty, fun _ hx => by cases hx⟩, ?_⟩
    · intro level hlevel
      rcases List.mem_cons.1 hlevel with rfl | hlevel
      · exact hs.level
      · exact hs.groups level hlevel
    · simp [chars, groupChars, Level.empty, Level.chars, hnone, hopen]
  · obtain rfl := Except.ok.inj h
    refine ⟨⟨hs.groups, hs.level, ?_⟩, ?_⟩
    · intro x hx
      obtain rfl := Option.some.inj hx
      exact wellFormed_ofChar (by simpa using hreserved)
    · simp [chars, hnone, chars_ofChar]

lemma stepAfter_spec (hs : s.WellFormed) (hsome : s.operand = some x)
    (h : s.stepAfter x c = .ok t) : t.WellFormed ∧ t.chars = s.chars ++ [c] := by
  obtain ⟨hx, hrank⟩ := hs.operand x hsome
  rw [stepAfter] at h
  split_ifs at h with hstar hbar hclose
  · obtain rfl := Except.ok.inj h
    refine ⟨⟨hs.groups, hs.level, ?_⟩, ?_⟩
    · intro y hy
      obtain rfl := Option.some.inj hy
      exact ⟨⟨hx, hrank⟩, le_rfl⟩
    · simp [chars, hsome, Regex.chars, hstar]
  · obtain rfl := Except.ok.inj h
    refine ⟨⟨hs.groups, ⟨?_, fun _ hf => by cases hf⟩, fun _ hy => by cases hy⟩, ?_⟩
    · intro a ha
      obtain rfl := Option.some.inj ha
      exact hs.level.close hx hrank
    · simp [chars, hsome, Level.chars, Level.chars_close, hbar]
  · split at h
    · cases h
    · next level groups hgroups =>
      obtain rfl := Except.ok.inj h
      rw [hclose]
      refine ⟨⟨?_, hs.groups level (by simp [hgroups]), ?_⟩, ?_⟩
      · intro l hl
        exact hs.groups l (by simp [hgroups, hl])
      · intro y hy
        obtain rfl := Option.some.inj hy
        exact ⟨hs.level.close hx hrank, le_rfl⟩
      · simp [chars, hsome, hgroups, groupChars, Regex.chars, Level.chars_close]
  · -- the operand joins the factors, and the character begins the next operand
    have hnext : WellFormed { s with
        level := { s.level with factors := some (s.level.sequence x) }, operand := none } := by
      refine ⟨hs.groups, ⟨hs.level.alternatives, ?_⟩, fun _ hy => by cases hy⟩
      intro f hf
      obtain rfl := Option.some.inj hf
      exact hs.level.sequence hx hrank
    obtain ⟨ht, hchars⟩ := stepOperand_spec hnext rfl h
    refine ⟨ht, hchars.trans ?_⟩
    obtain ⟨groups, ⟨alternatives, factors⟩, operand⟩ := s
    obtain rfl : operand = some x := hsome
    cases factors <;> simp [chars, Level.chars, Level.sequence, Regex.chars]

/-- **A step keeps a state well formed and adds the character to its text.** -/
theorem step_spec (hs : s.WellFormed) (h : s.step c = .ok t) :
    t.WellFormed ∧ t.chars = s.chars ++ [c] := by
  rw [step] at h
  split at h
  · next hnone => exact stepOperand_spec hs hnone h
  · next x hsome => exact stepAfter_spec hs hsome h

lemma foldlM_step_spec {cs : List Char} (hs : s.WellFormed) (h : cs.foldlM step s = .ok t) :
    t.WellFormed ∧ t.chars = s.chars ++ cs := by
  induction cs generalizing s with
  | nil =>
      obtain rfl := Except.ok.inj h
      exact ⟨hs, (List.append_nil _).symm⟩
  | cons c cs ih =>
      rw [List.foldlM_cons] at h
      cases hstep : s.step c with
      | error expected =>
          rw [hstep] at h
          cases h
      | ok r =>
          rw [hstep] at h
          obtain ⟨hr, hchars⟩ := step_spec hs hstep
          obtain ⟨ht, htext⟩ := ih hr h
          refine ⟨ht, ?_⟩
          rw [htext, hchars, List.append_assoc, List.singleton_append]

lemma finish_spec (hs : s.WellFormed) (h : s.finish = .ok e) :
    e.WellFormed ∧ e.chars = s.chars := by
  rw [finish] at h
  split at h
  · cases h
  · cases h
  · next x hsome hgroups =>
    obtain rfl := Except.ok.inj h
    obtain ⟨hx, hrank⟩ := hs.operand x hsome
    refine ⟨hs.level.close hx hrank, ?_⟩
    simp [chars, hsome, hgroups, groupChars, Level.chars_close]

end Progress

lemma parse_spec {text : String} (h : parse text = .ok e) :
    e.WellFormed ∧ e.chars = text.toList := by
  obtain ⟨t, hfold, hfinish⟩ := parse_eq_ok_iff.1 h
  obtain ⟨ht, hchars⟩ := Progress.foldlM_step_spec Progress.wellFormed_start hfold
  obtain ⟨he, htext⟩ := Progress.finish_spec ht hfinish
  refine ⟨he, ?_⟩
  rw [htext, hchars]
  rfl

/-- **What is read follows the rules for trees.** -/
theorem wellFormed_of_parse {text : String} (h : parse text = .ok e) : e.WellFormed :=
  (parse_spec h).1

/-- **What is read has the text that it was read from.** -/
theorem render_of_parse {text : String} (h : parse text = .ok e) : e.render = text := by
  rw [← String.toList_inj, toList_render]
  exact (parse_spec h).2

/-! ## Reading the text of an expression -/

/-- The text begins with a character at which an operand can begin. -/
lemma exists_chars_eq_cons (he : e.WellFormed) :
    ∃ c cs, e.chars = c :: cs ∧ c ≠ '*' ∧ c ≠ '|' ∧ c ≠ ')' := by
  induction e with
  | symbol c =>
      have hc := he.1
      simp only [isReserved, Bool.or_eq_false_iff, beq_eq_false_iff_ne] at hc
      exact ⟨c, [], rfl, hc.2, hc.1.2, hc.1.1.2⟩
  | epsilon => exact ⟨' ', [], rfl, by decide, by decide, by decide⟩
  | concat left right ihl ihr =>
      obtain ⟨c, cs, hcs, hc⟩ := ihl he.1.1
      exact ⟨c, cs ++ right.chars, by rw [chars, hcs, List.cons_append], hc⟩
  | union left right ihl ihr =>
      obtain ⟨c, cs, hcs, hc⟩ := ihl he.1
      exact ⟨c, cs ++ '|' :: right.chars, by rw [chars, hcs, List.cons_append], hc⟩
  | iterate operand ih =>
      obtain ⟨c, cs, hcs, hc⟩ := ih he.1
      exact ⟨c, cs ++ ['*'], by rw [chars, hcs, List.cons_append], hc⟩
  | group inner ih => exact ⟨'(', inner.chars ++ [')'], rfl, by decide, by decide, by decide⟩

namespace Progress

/-- An expression that begins behind an operand makes it a factor. -/
lemma foldlM_step_some (he : e.WellFormed) (groups : List Level) (level : Level) (x : Regex) :
    e.chars.foldlM step ⟨groups, level, some x⟩ =
      e.chars.foldlM step ⟨groups, ⟨level.alternatives, some (level.sequence x)⟩, none⟩ := by
  obtain ⟨c, cs, hcs, hstar, hbar, hclose⟩ := exists_chars_eq_cons he
  rw [hcs, List.foldlM_cons, List.foldlM_cons]
  simp only [step, stepAfter, if_neg hstar, if_neg hbar, if_neg hclose]

variable (e) in
/-- The text is read as one operand, whatever stands to the left. -/
def ReadsAsOperand : Prop :=
  ∀ groups level, e.chars.foldlM step ⟨groups, level, none⟩ = .ok ⟨groups, level, some e⟩

variable (e) in
/-- The text is read as a sequence of factors behind a bar or at the beginning of a group. -/
def ReadsAsFactors : Prop :=
  ∀ groups alternatives, ∃ factors x,
    e.chars.foldlM step ⟨groups, ⟨alternatives, none⟩, none⟩ =
        .ok ⟨groups, ⟨alternatives, factors⟩, some x⟩ ∧
      Level.sequence ⟨alternatives, factors⟩ x = e

variable (e) in
/-- The text is read as what a group holds. -/
def ReadsAsGroup : Prop :=
  ∀ groups, ∃ level x,
    e.chars.foldlM step ⟨groups, .empty, none⟩ = .ok ⟨groups, level, some x⟩ ∧ level.close x = e

lemma ReadsAsOperand.readsAsFactors (h : ReadsAsOperand e) : ReadsAsFactors e :=
  fun groups alternatives => ⟨none, e, h groups ⟨alternatives, none⟩, rfl⟩

lemma ReadsAsFactors.readsAsGroup (h : ReadsAsFactors e) : ReadsAsGroup e := by
  intro groups
  obtain ⟨factors, x, hread, hsequence⟩ := h groups none
  exact ⟨⟨none, factors⟩, x, hread, hsequence⟩

variable {left right inner : Regex}

lemma readsAsOperand_symbol (he : (symbol c).WellFormed) : ReadsAsOperand (symbol c) := by
  intro groups level
  have hopen : c ≠ '(' := by
    rintro rfl
    exact absurd he.1 (by decide)
  change (stepOperand _ c >>= fun s => List.foldlM step s []) = _
  rw [stepOperand, if_neg hopen, if_neg (by simp [he.1]), ofChar, if_neg he.2]
  rfl

lemma readsAsOperand_epsilon : ReadsAsOperand epsilon := fun _ _ => rfl

lemma ReadsAsOperand.iterate (h : ReadsAsOperand e) : ReadsAsOperand (iterate e) := by
  intro groups level
  rw [Regex.chars, List.foldlM_append, h groups level]
  rfl

lemma ReadsAsGroup.group (h : ReadsAsGroup inner) : ReadsAsOperand (group inner) := by
  intro groups level
  obtain ⟨l, x, hread, hclose⟩ := h (level :: groups)
  change ((inner.chars ++ [')']).foldlM step ⟨level :: groups, .empty, none⟩) = _
  rw [List.foldlM_append, hread, ← hclose]
  rfl

lemma ReadsAsFactors.concat (hl : ReadsAsFactors left) (hr : ReadsAsOperand right)
    (hright : right.WellFormed) : ReadsAsFactors (concat left right) := by
  intro groups alternatives
  obtain ⟨factors, x, hread, hsequence⟩ := hl groups alternatives
  refine ⟨some left, right, ?_, rfl⟩
  rw [Regex.chars, List.foldlM_append, hread]
  change right.chars.foldlM step _ = _
  rw [foldlM_step_some hright, hsequence, hr]

lemma ReadsAsGroup.union (hl : ReadsAsGroup left) (hr : ReadsAsFactors right) :
    ReadsAsGroup (union left right) := by
  intro groups
  obtain ⟨level, x, hreadLeft, hclose⟩ := hl groups
  obtain ⟨factors, y, hreadRight, hsequence⟩ := hr groups (some left)
  refine ⟨⟨some left, factors⟩, y, ?_, ?_⟩
  · rw [Regex.chars, List.foldlM_append, hreadLeft, ← hreadRight, ← hclose]
    rfl
  · rw [← hsequence]
    rfl

/-- **The text of a well-formed expression is read as its rank allows.** -/
theorem reads_of_wellFormed (he : e.WellFormed) :
    ReadsAsGroup e ∧ (1 ≤ e.rank → ReadsAsFactors e) ∧ (2 ≤ e.rank → ReadsAsOperand e) := by
  -- an operand is also a sequence of factors, and these are also what a group may hold
  have of_operand {x : Regex} (h : ReadsAsOperand x) :
      ReadsAsGroup x ∧ (1 ≤ x.rank → ReadsAsFactors x) ∧ (2 ≤ x.rank → ReadsAsOperand x) :=
    ⟨h.readsAsFactors.readsAsGroup, fun _ => h.readsAsFactors, fun _ => h⟩
  induction e with
  | symbol c => exact of_operand (readsAsOperand_symbol he)
  | epsilon => exact of_operand readsAsOperand_epsilon
  | concat left right ihl ihr =>
      obtain ⟨⟨hl, hrankl⟩, hr, hrankr⟩ := he
      have h : ReadsAsFactors (Regex.concat left right) :=
        ReadsAsFactors.concat ((ihl hl).2.1 hrankl) ((ihr hr).2.2 hrankr) hr
      exact ⟨h.readsAsGroup, fun _ => h, fun hrank => absurd hrank (by simp [rank])⟩
  | union left right ihl ihr =>
      obtain ⟨hl, hr, hrankr⟩ := he
      have h : ReadsAsGroup (Regex.union left right) :=
        ReadsAsGroup.union (ihl hl).1 ((ihr hr).2.1 hrankr)
      exact ⟨h, fun hrank => absurd hrank (by simp [rank]), fun hrank =>
        absurd hrank (by simp [rank])⟩
  | iterate operand ih =>
      exact of_operand (ReadsAsOperand.iterate ((ih he.1).2.2 he.2))
  | group inner ih => exact of_operand (ReadsAsGroup.group (ih he).1)

end Progress

/-- **The text of a well-formed expression is read as the expression.** -/
theorem parse_render (he : e.WellFormed) : parse e.render = .ok e := by
  obtain ⟨level, x, hread, hclose⟩ := (Progress.reads_of_wellFormed he).1 []
  refine parse_eq_ok_iff.2 ⟨⟨[], level, some x⟩, ?_, ?_⟩
  · rw [toList_render]
    exact hread
  · rw [← hclose]
    rfl

theorem eq_of_render_eq {d : Regex} (hd : d.WellFormed) (he : e.WellFormed)
    (h : d.render = e.render) : d = e := by
  have hread := parse_render hd
  rw [h, parse_render he] at hread
  exact (Except.ok.inj hread).symm

end FiniteAutomata.Regex
