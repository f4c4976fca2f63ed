import FiniteAutomata.Proofs.Regex.Grammar
import FiniteAutomata.Proofs.Regex.Scan

/-!
# The grammar agrees with the scan

The grammar goes back where an alternative fails, out of any number of open groups, and only what it has
recorded tells how far it had come; the scan never goes back.  They agree, because behind an operand
there is always a place up to which the grammar reads the group, whether or not the text goes on
correctly, and since a rule that fails further on is recorded in place of the others.

* `Follows`, `Operand` — what can come of a group, and of an operand, next to what the scan says.
* `operand_cases`, `continues_cases`, `group_cases` — nothing else can come of them.
* `exists_runs_iff_scan`, `runs_none_iff_scan` — what comes of a whole text.
* **`parse_agrees_with_scan`** — the reader, the grammar and the scan agree on every text.
-/

namespace FiniteAutomata.Grammar

open Pattern Rule
open Regex (Scan isReserved)

variable {a b : Attempts} {n m : Nat} {cs rest : List Char} {d : Char} {base : List Rule}
  {x y z : Place} {o : Option Place}

/-! ## The scan, character by character -/

section Scan

variable (groups n) (needed : Bool) (cs)

lemma firstOffence_open : Scan.firstOffence ⟨groups, needed⟩ n ('(' :: cs) =
    Scan.firstOffence ⟨groups + 1, true⟩ (n + 1) cs := by
  simp [Scan.firstOffence, Scan.step]

lemma firstOffence_symbol (h : isReserved d = false) :
    Scan.firstOffence ⟨groups, needed⟩ n (d :: cs) = Scan.firstOffence ⟨groups, false⟩ (n + 1) cs := by
  have hd := h
  simp only [isReserved, Bool.or_eq_false_iff, beq_eq_false_iff_ne] at hd
  obtain ⟨⟨⟨hopen, hclose⟩, hbar⟩, -⟩ := hd
  cases needed <;> simp [Scan.firstOffence, Scan.step, h, hopen, hclose, hbar]

lemma firstOffence_star : Scan.firstOffence ⟨groups, false⟩ n ('*' :: cs) =
    Scan.firstOffence ⟨groups, false⟩ (n + 1) cs := by
  simp [Scan.firstOffence, Scan.step]

lemma firstOffence_bar : Scan.firstOffence ⟨groups, false⟩ n ('|' :: cs) =
    Scan.firstOffence ⟨groups, true⟩ (n + 1) cs := by
  simp [Scan.firstOffence, Scan.step]

lemma firstOffence_close : Scan.firstOffence ⟨groups + 1, false⟩ n (')' :: cs) =
    Scan.firstOffence ⟨groups, false⟩ (n + 1) cs := by
  simp [Scan.firstOffence, Scan.step]

lemma firstOffence_needed (h : ∀ d, cs.head? = some d → isReserved d = true ∧ d ≠ '(') :
    Scan.firstOffence ⟨groups, true⟩ n cs = some (n, .operand) := by
  cases cs with
  | nil => rfl
  | cons d cs =>
      obtain ⟨hreserved, hopen⟩ := h d rfl
      simp [Scan.firstOffence, Scan.step, hreserved, hopen]

end Scan

/-! ## Operands -/

lemma runs_reserved_reads (h : isReserved d = true) :
    ∃ y, Runs reserved ⟨n, d :: cs⟩ a (some y) a := by
  simp only [isReserved, Bool.or_eq_true, beq_iff_eq] at h
  rcases h with ((rfl | rfl) | rfl) | rfl
  · exact ⟨_, .choice .charReads⟩
  · exact ⟨_, .choiceFails (.charFails (by simp)) (.choice .charReads)⟩
  · exact ⟨_, .choiceFails (.charFails (by simp)) (.choiceFails (.charFails (by simp))
      (.choice .charReads))⟩
  · exact ⟨_, .choiceFails (.charFails (by simp)) (.choiceFails (.charFails (by simp))
      (.choiceFails (.charFails (by simp)) .charReads))⟩

lemma runs_reserved_fails (h : ∀ d, cs.head? = some d → isReserved d = false) :
    Runs reserved ⟨n, cs⟩ a none a := by
  have hne : ∀ d, isReserved d = true → cs.head? ≠ some d := by
    intro d hd hhead
    rw [h d hhead] at hd
    cases hd
  exact .choiceFails (.charFails (hne _ rfl)) (.choiceFails (.charFails (hne _ rfl))
    (.choiceFails (.charFails (hne _ rfl)) (.charFails (hne _ rfl))))

lemma runs_symbol_reads (h : isReserved d = false) :
    Runs (rule symbol) ⟨n, d :: cs⟩ a (some ⟨n + 1, cs⟩) a := by
  refine .rule (.seq (.not (runs_reserved_fails fun d' hd' => ?_)) .anyReads)
  obtain rfl := Option.some.inj hd'
  exact h

/-- What a symbol says fails at the end of the text and at a reserved character. -/
lemma runs_symbol_fails (h : ∀ d, cs.head? = some d → isReserved d = true) :
    Runs symbol.body ⟨n, cs⟩ a none a := by
  cases cs with
  | nil => exact .seq (.not (runs_reserved_fails fun d hd => by cases hd)) .anyFails
  | cons d cs =>
      obtain ⟨y, hy⟩ : ∃ y, Runs reserved ⟨n, d :: cs⟩ a (some y) a := runs_reserved_reads (h d rfl)
      exact .seqFails (.notFails hy)

/-! ## What can come of a group -/

/-- The rules that are recorded where the scan meets an offence. -/
def attempted : Expectation → List Rule
  | .operand => [iteration]
  | .insideGroup => [star, iteration]
  | .outsideGroups => [star, iteration, endOfText]

/-- Nothing is left, or a group is closed. -/
def Stops (rest : List Char) : Prop := ∀ d, rest.head? = some d → d = ')'

/-- Something has failed further on, and what stands here is no end of a group. -/
def Blocked (x : Place) (offset : Nat) : Prop :=
  x.offset < offset ∧ (x.rest.head? = some '(' ∨ x.rest.head? = some '|')

/-- What can come of a pattern that should read to the end of the group: it stops there, and a star and
another operand have failed; or the scan meets an offence, and what has failed there is recorded, whether
or not the pattern reads some of the characters before.  Where an operand is needed, one is read. -/
inductive Follows (R : Option Place → Attempts → Prop) (needed : Bool) (n : Nat) (cs : List Char) : Prop
  | closes {m : Nat} {rest : List Char} (run : R (some ⟨m, rest⟩) ⟨m, [star, iteration]⟩)
      (stops : Stops rest) (further : n + needed.toNat ≤ m) (shorter : rest.length ≤ cs.length)
      (scan : ∀ groups, Scan.firstOffence ⟨groups, needed⟩ n cs =
        Scan.firstOffence ⟨groups, false⟩ m rest)
  | offends {m : Nat} {expected : Expectation} {o : Option Place} (run : R o ⟨m, attempted expected⟩)
      (tells : Attempts.Tells ⟨m, attempted expected⟩ n []) (blocked : ∀ x, o = some x → Blocked x m)
      (scan : ∀ groups, Scan.firstOffence ⟨groups, needed⟩ n cs = some (m, expected))

/-- What can come of an operand: it is read up to its stars; or it is a group with an offence inside; or
there is none. -/
inductive Operand (n : Nat) (cs : List Char) (a : Attempts) (base : List Rule) : Prop
  | reads {m : Nat} {rest : List Char} {b : Attempts} (run : Runs primary ⟨n, cs⟩ a (some ⟨m, rest⟩) b)
      (fresh : b.At m []) (further : n < m) (shorter : rest.length < cs.length)
      (scan : ∀ groups needed, Scan.firstOffence ⟨groups, needed⟩ n cs =
        Scan.firstOffence ⟨groups, false⟩ m rest)
  | offends {m : Nat} {expected : Expectation}
      (run : Runs (rule iteration) ⟨n, cs⟩ a none ⟨m, attempted expected⟩)
      (further : n < m) (opens : cs.head? = some '(')
      (scan : ∀ groups needed, Scan.firstOffence ⟨groups, needed⟩ n cs = some (m, expected))
  | refused (run : Runs (rule iteration) ⟨n, cs⟩ a none ⟨n, base ++ [iteration]⟩)
      (head : ∀ d, cs.head? = some d → isReserved d = true ∧ d ≠ '(')

/-- What comes of a pattern comes also of one that first reads what the scan passes over. -/
lemma Follows.imp {R R' : Option Place → Attempts → Prop} {needed : Bool}
    (h : Follows R false m rest) (hrun : ∀ o b, R o b → R' o b)
    (hscan : ∀ groups, Scan.firstOffence ⟨groups, needed⟩ n cs =
      Scan.firstOffence ⟨groups, false⟩ m rest)
    (hfurther : n < m) (hshorter : rest.length < cs.length) : Follows R' needed n cs := by
  cases h with
  | closes run stops further shorter scan =>
      refine .closes (hrun _ _ run) stops ?_ (Nat.le_trans shorter (Nat.le_of_lt hshorter))
        fun groups => (hscan groups).trans (scan groups)
      exact Nat.le_trans (Nat.add_le_add_left needed.toNat_le n) (Nat.le_trans hfurther further)
  | offends run tells blocked scan =>
      exact .offends (hrun _ _ run) (.inl (Nat.lt_of_lt_of_le hfurther tells.le)) blocked
        fun groups => (hscan groups).trans (scan groups)

/-- If a group fails inside, so does the operand, and nothing is recorded for the place of its first
character. -/
lemma runs_iteration_offends {inner : List Char} {rules : List Rule} (hfurther : n < m)
    (run : Runs (seq (rule union) (char ')')) ⟨n + 1, inner⟩ a none ⟨m, rules⟩) :
    Runs (rule iteration) ⟨n, '(' :: inner⟩ a none ⟨m, rules⟩ := by
  have hgroup : Runs (rule group) ⟨n, '(' :: inner⟩ a none ⟨m, rules⟩ :=
    .rule_fails_behind hfurther (.seq .charReads run)
  have hsymbol : Runs (rule symbol) ⟨n, '(' :: inner⟩ ⟨m, rules⟩ none ⟨m, rules⟩ :=
    .rule_fails_behind hfurther (runs_symbol_fails (by simp [isReserved]))
  exact .rule_fails_behind hfurther (.seqFails (.choiceFails hgroup hsymbol))

/-- Where no operand begins, a group and a symbol have failed, and an operand takes their place. -/
lemma runs_iteration_refused (ha : a.At n base)
    (h : ∀ d, cs.head? = some d → isReserved d = true ∧ d ≠ '(') :
    Runs (rule iteration) ⟨n, cs⟩ a none ⟨n, base ++ [iteration]⟩ := by
  have hgroup : Runs (rule group) ⟨n, cs⟩ a none ⟨n, base ++ [group]⟩ :=
    .rule_fails_at ha (.seqFails (.charFails fun hopen => (h '(' hopen).2 rfl))
  have hsymbol : Runs (rule symbol) ⟨n, cs⟩ ⟨n, base ++ [group]⟩ none
      ⟨n, (base ++ [group]) ++ [symbol]⟩ :=
    .rule_fails_at (.inl rfl) (runs_symbol_fails fun d hd => (h d hd).1)
  rw [List.append_assoc] at hsymbol
  exact .rule_fails_several ha (by simp) (.seqFails (.choiceFails hgroup hsymbol))

/-- **What comes of an operand**, if it is known what comes of shorter groups. -/
theorem operand_cases (ih : ∀ inner : List Char, inner.length < cs.length → ∀ n a,
      Attempts.At a n [] → Follows (Runs (rule union) ⟨n, inner⟩ a) true n inner)
    (ha : a.At n base) : Operand n cs a base := by
  cases cs with
  | nil => exact .refused (runs_iteration_refused ha (by simp)) (by simp)
  | cons d inner =>
      by_cases hopen : d = '('
      · subst hopen
        have hscan (groups needed) := firstOffence_open n inner groups needed
        cases ih inner (Nat.lt_succ_self _) (n + 1) a ha.later with
        | @closes m rest run stops further shorter scan =>
            have hfurther : n < m := Nat.lt_of_succ_lt further
            cases rest with
            | nil =>
                have hfails : Runs (seq (rule union) (char ')')) ⟨n + 1, inner⟩ a none
                    ⟨m, attempted .insideGroup⟩ := .seq run (.charFails (by simp))
                refine .offends (runs_iteration_offends hfurther hfails) hfurther rfl
                  fun groups needed => ?_
                rw [hscan, scan]
                rfl
            | cons c rest =>
                obtain rfl := stops c rfl
                refine .reads (.choice (.rule (.seq .charReads (.seq run .charReads))))
                  (.inr ⟨Nat.lt_succ_self m, rfl⟩) (Nat.lt_succ_of_lt hfurther) ?_ fun groups needed => ?_
                · rw [List.length_cons] at shorter ⊢
                  omega
                · rw [hscan, scan, firstOffence_close]
        | @offends m expected o run tells blocked scan =>
            have hfails : Runs (seq (rule union) (char ')')) ⟨n + 1, inner⟩ a none
                ⟨m, attempted expected⟩ := by
              cases o with
              | none => exact .seqFails run
              | some x =>
                  obtain ⟨-, hhead⟩ := blocked x rfl
                  refine .seq run (.charFails ?_)
                  rcases hhead with hhead | hhead <;> simp [hhead]
            exact .offends (runs_iteration_offends tells.le hfails) tells.le rfl
              fun groups needed => (hscan groups needed).trans (scan (groups + 1))
      · by_cases hreserved : isReserved d = true
        · have hhead : ∀ c, (d :: inner).head? = some c → isReserved c = true ∧ c ≠ '(' := by
            intro c hc
            obtain rfl := Option.some.inj hc
            exact ⟨hreserved, hopen⟩
          exact .refused (runs_iteration_refused ha hhead) hhead
        · rw [Bool.not_eq_true] at hreserved
          have hgroup : Runs (rule group) ⟨n, d :: inner⟩ a none ⟨n, base ++ [group]⟩ :=
            .rule_fails_at ha (.seqFails (.charFails (by simpa using hopen)))
          exact .reads (.choiceFails hgroup (runs_symbol_reads hreserved))
            (.inr ⟨Nat.lt_succ_self n, rfl⟩) (Nat.lt_succ_self n) (Nat.lt_succ_self _)
            fun groups needed => firstOffence_symbol n inner groups needed hreserved

/-! ## Behind an operand -/

/-- What is left to read of a group behind an operand: its stars, further operands, and further
alternatives. -/
def Continues (x : Place) (a : Attempts) (o : Option Place) (b : Attempts) : Prop :=
  ∃ y c z d, Runs (many (rule star)) x a (some y) c ∧
    Runs (many (rule iteration)) y c (some z) d ∧ Runs (many alternative) z d o b

namespace Continues

variable {c d e : Attempts}

/-- A star. -/
lemma of_star (hstar : Runs (rule star) x a (some y) c) (h : Continues y c o b) :
    Continues x a o b := by
  obtain ⟨s, cs, t, ct, stars, operands, alternatives⟩ := h
  exact ⟨s, cs, t, ct, .many hstar stars, operands, alternatives⟩

/-- A further operand. -/
lemma of_primary (hstar : Runs (rule star) x a none c) (hprimary : Runs primary x c (some y) d)
    (h : Continues y d o b) : Continues x a o b := by
  obtain ⟨s, cs, t, ct, stars, operands, alternatives⟩ := h
  exact ⟨x, c, t, ct, .manyStops hstar, .many (.rule (.seq hprimary stars)) operands, alternatives⟩

/-- A further alternative. -/
lemma of_alternative (hstar : Runs (rule star) x a none c)
    (hiteration : Runs (rule iteration) x c none d) (hbar : Runs (char '|') x d (some y) d)
    (hprimary : Runs primary y d (some z) e) (h : Continues z e o b) : Continues x a o b := by
  obtain ⟨s, cs, t, ct, stars, operands, alternatives⟩ := h
  have hconcat : Runs (rule concat) y d (some t) ct :=
    .rule (.seq (.rule (.seq hprimary stars)) operands)
  exact ⟨x, c, x, d, .manyStops hstar, .manyStops hiteration, .many (.seq hbar hconcat) alternatives⟩

/-- Nothing of all that. -/
lemma stops (hstar : Runs (rule star) x a none c) (hiteration : Runs (rule iteration) x c none d)
    (halternative : Runs alternative x d none b) : Continues x a (some x) b :=
  ⟨x, c, x, d, .manyStops hstar, .manyStops hiteration, .manyStops halternative⟩

end Continues

/-- A group begins with an operand. -/
lemma runs_union (hprimary : Runs primary x a (some y) b) {c : Attempts} (h : Continues y b o c) :
    Runs (rule union) x a o c := by
  obtain ⟨s, cs, t, ct, stars, operands, alternatives⟩ := h
  obtain ⟨z, rfl⟩ := alternatives.exists_of_many
  exact .rule (.seq (.rule (.seq (.rule (.seq hprimary stars)) operands)) alternatives)

/-- Where an operand is needed it is read, or there is an offence. -/
lemma Operand.needed (ha : a.At n []) (h : Operand n cs a []) :
    (∃ m rest b, Runs primary ⟨n, cs⟩ a (some ⟨m, rest⟩) b ∧ b.At m [] ∧ n < m ∧
      rest.length < cs.length ∧ ∀ groups, Scan.firstOffence ⟨groups, true⟩ n cs =
        Scan.firstOffence ⟨groups, false⟩ m rest) ∨
    ∃ m expected, Runs (rule concat) ⟨n, cs⟩ a none ⟨m, attempted expected⟩ ∧
      Attempts.Tells ⟨m, attempted expected⟩ n [] ∧
      ∀ groups, Scan.firstOffence ⟨groups, true⟩ n cs = some (m, expected) := by
  cases h with
  | @reads m rest b run fresh further shorter scan =>
      exact .inl ⟨m, rest, b, run, fresh, further, shorter, fun groups => scan groups true⟩
  | @offends m expected run further opens scan =>
      have htells : Attempts.Tells ⟨m, attempted expected⟩ n [] := .inl further
      exact .inr ⟨m, expected, .rule_fails_tells ha htells (.seqFails run), htells,
        fun groups => scan groups true⟩
  | refused run head =>
      have htells : Attempts.Tells ⟨n, attempted .operand⟩ n [] := .inr ⟨iteration, rfl⟩
      exact .inr ⟨n, .operand, .rule_fails_tells ha htells (.seqFails run), htells,
        fun groups => firstOffence_needed n cs groups head⟩

/-- **What comes of what is behind an operand**, if it is known what comes of operands and of shorter
rests. -/
theorem continues_cases
    (ih : ∀ rest : List Char, rest.length < cs.length → ∀ n a, Attempts.At a n [] →
      Follows (Continues ⟨n, rest⟩ a) false n rest)
    (operand : ∀ rest : List Char, rest.length ≤ cs.length → ∀ n a base, Attempts.At a n base →
      Operand n rest a base)
    (ha : a.At n []) : Follows (Continues ⟨n, cs⟩ a) false n cs := by
  by_cases hhead : cs.head? = some '*'
  · obtain ⟨inner, rfl⟩ : ∃ inner, cs = '*' :: inner := List.head?_eq_some_iff.1 hhead
    exact (ih inner (Nat.lt_succ_self _) (n + 1) a ha.later).imp
      (fun o b h => .of_star (.rule .charReads) h) (fun groups => firstOffence_star n inner groups)
      (Nat.lt_succ_self n) (Nat.lt_succ_self _)
  have hbody : Runs star.body ⟨n, cs⟩ a none a := .charFails hhead
  have hstar : Runs (rule star) ⟨n, cs⟩ a none ⟨n, [star]⟩ := .rule_fails_at ha hbody
  cases operand cs (Nat.le_refl _) n ⟨n, [star]⟩ [star] (.inl rfl) with
  | @reads m rest b run fresh further shorter scan =>
      exact (ih rest shorter m b fresh).imp (fun o b h => .of_primary hstar run h)
        (fun groups => scan groups false) further shorter
  | @offends m expected run further opens scan =>
      have halternative : Runs alternative ⟨n, cs⟩ ⟨m, attempted expected⟩ none
          ⟨m, attempted expected⟩ := .seqFails (.charFails (by simp [opens]))
      refine .offends (.stops hstar run halternative) (.inl further) ?_ fun groups => scan groups false
      rintro x ⟨⟩
      exact ⟨further, .inl opens⟩
  | refused run head =>
      by_cases hbar : cs.head? = some '|'
      · obtain ⟨inner, rfl⟩ : ∃ inner, cs = '|' :: inner := List.head?_eq_some_iff.1 hbar
        have hscan (groups) := firstOffence_bar n inner groups
        have hlater : Attempts.At ⟨n, [star] ++ [iteration]⟩ (n + 1) [] := .inr ⟨Nat.lt_succ_self n, rfl⟩
        rcases (operand inner (Nat.le_succ _) (n + 1) _ [] hlater).needed hlater with
          ⟨m, rest, b, hprimary, fresh, further, shorter, scan⟩ | ⟨m, expected, hfails, tells, scan⟩
        · have hshorter : rest.length < ('|' :: inner).length := Nat.lt_succ_of_lt shorter
          exact (ih rest hshorter m b fresh).imp
            (fun o b h => .of_alternative hstar run .charReads hprimary h)
            (fun groups => (hscan groups).trans (scan groups)) (Nat.lt_of_succ_lt further) hshorter
        · refine .offends (.stops hstar run (.seq .charReads hfails)) (.inl tells.le) ?_
            fun groups => (hscan groups).trans (scan groups)
          rintro x ⟨⟩
          exact ⟨tells.le, .inr rfl⟩
      · refine .closes (.stops hstar run (.seqFails (.charFails hbar))) (fun d hd => ?_) (Nat.le_refl n)
          (Nat.le_refl _) fun groups => rfl
        obtain ⟨hreserved, hopen⟩ := head d hd
        rw [hd, Option.some.injEq] at hhead hbar
        simpa [isReserved, hopen, hhead, hbar] using hreserved

/-- What comes of a group, if it is known what comes of operands and of what is behind them. -/
theorem union_cases (operand : Operand n cs a [])
    (continues : ∀ rest : List Char, rest.length < cs.length → ∀ n a, Attempts.At a n [] →
      Follows (Continues ⟨n, rest⟩ a) false n rest)
    (ha : a.At n []) : Follows (Runs (rule union) ⟨n, cs⟩ a) true n cs := by
  rcases operand.needed ha with
    ⟨m, rest, b, hprimary, fresh, further, shorter, scan⟩ | ⟨m, expected, hfails, tells, scan⟩
  · exact (continues rest shorter m b fresh).imp (fun o b h => runs_union hprimary h) scan further shorter
  · have hunion : Runs (rule union) ⟨n, cs⟩ a none ⟨m, attempted expected⟩ :=
      .rule_fails_tells ha tells (.seqFails hfails)
    exact .offends hunion tells (fun x hx => by cases hx) scan

/-- **What comes of a group**, and of what is behind an operand. -/
theorem group_cases (cs : List Char) : ∀ n a, Attempts.At a n [] →
    Follows (Runs (rule union) ⟨n, cs⟩ a) true n cs ∧ Follows (Continues ⟨n, cs⟩ a) false n cs := by
  -- the induction is on the length, since an operand is read at once
  induction hlength : cs.length using Nat.strongRecOn generalizing cs with
  | ind length ih =>
      subst hlength
      have operand : ∀ rest : List Char, rest.length ≤ cs.length → ∀ n a base, Attempts.At a n base →
          Operand n rest a base := fun rest hrest n a base =>
        operand_cases fun inner hinner n a ha =>
          (ih _ (Nat.lt_of_lt_of_le hinner hrest) inner rfl n a ha).1
      have continues : ∀ rest : List Char, rest.length < cs.length → ∀ n a, Attempts.At a n [] →
          Follows (Continues ⟨n, rest⟩ a) false n rest :=
        fun rest hrest n a ha => (ih _ hrest rest rfl n a ha).2
      exact fun n a ha => ⟨union_cases (operand cs (Nat.le_refl _) n a [] ha) continues ha,
        continues_cases continues operand ha⟩

/-! ## The whole text -/

lemma runs_expression_fails (hb : b.Tells 0 [])
    (h : Runs (seq (rule union) (rule endOfText)) ⟨0, cs⟩ .empty none b) :
    Runs (rule expression) ⟨0, cs⟩ .empty none b :=
  .rule_fails_tells Attempts.at_empty hb (.seq .firstReads h)

/-- Where the scan meets no offence, the text is read to its end; otherwise nothing is read, and what is
recorded is what the scan expects where it stops. -/
theorem runs_expression (cs : List Char) :
    (Scan.start.firstOffence 0 cs = none ∧
      ∃ y a, Runs (rule expression) ⟨0, cs⟩ .empty (some y) a) ∨
    ∃ offset expected, Scan.start.firstOffence 0 cs = some (offset, expected) ∧
      Runs (rule expression) ⟨0, cs⟩ .empty none ⟨offset, attempted expected⟩ := by
  cases (group_cases cs 0 .empty Attempts.at_empty).1 with
  | @closes m rest run stops further shorter scan =>
      cases rest with
      | nil => exact .inl ⟨scan 0, _, _, .rule (.seq .firstReads (.seq run (.rule .lastReads)))⟩
      | cons c rest =>
          obtain rfl := stops c rfl
          refine .inr ⟨m, .outsideGroups, scan 0, ?_⟩
          have hend : Runs (rule endOfText) ⟨m, ')' :: rest⟩ ⟨m, [star, iteration]⟩ none
              ⟨m, attempted .outsideGroups⟩ := .rule_fails_at (.inl rfl) (.lastFails (by simp))
          exact runs_expression_fails (.inl (Nat.lt_of_succ_le further)) (.seq run hend)
  | @offends m expected o run tells blocked scan =>
      refine .inr ⟨m, expected, scan 0, ?_⟩
      cases o with
      | none => exact runs_expression_fails tells (.seqFails run)
      | some x =>
          obtain ⟨hbehind, hhead⟩ := blocked x rfl
          have hrest : x.rest ≠ [] := by
            intro hnil
            simp [hnil] at hhead
          have hend : Runs (rule endOfText) x ⟨m, attempted expected⟩ none ⟨m, attempted expected⟩ :=
            .rule_fails_behind hbehind (.lastFails hrest)
          exact runs_expression_fails tells (.seq run hend)

/-- The grammar reads a text if and only if the scan meets no offence. -/
theorem exists_runs_iff_scan : (∃ y a, Runs (rule expression) ⟨0, cs⟩ .empty (some y) a) ↔
    Scan.start.firstOffence 0 cs = none := by
  obtain ⟨hscan, hread⟩ | ⟨offset, expected, hscan, hfails⟩ := runs_expression cs
  · exact iff_of_true hread hscan
  · refine iff_of_false ?_ (by simp [hscan])
    rintro ⟨y, a, hread⟩
    cases (hread.unique hfails).1

/-- Otherwise the rules that are recorded are those that the scan expects at the first offence. -/
theorem runs_none_iff_scan : Runs (rule expression) ⟨0, cs⟩ .empty none a ↔
    ∃ offset expected, Scan.start.firstOffence 0 cs = some (offset, expected) ∧
      a = ⟨offset, attempted expected⟩ := by
  obtain ⟨hscan, y, b, hread⟩ | ⟨offset, expected, hscan, hfails⟩ := runs_expression cs
  · refine iff_of_false (fun hfails => ?_) (by simp [hscan])
    cases (hread.unique hfails).1
  · constructor
    · intro h
      exact ⟨offset, expected, hscan, (h.unique hfails).2⟩
    · rintro ⟨offset', expected', hscan', rfl⟩
      rw [hscan] at hscan'
      cases hscan'
      exact hfails

/-- The rules that are recorded where the scan stops, in words. -/
lemma enumerate_attempted (offset : Nat) (expected : Expectation) :
    enumerate ((Attempts.mk offset (attempted expected)).expected.map Rule.render) =
      expected.render := by
  cases expected <;> rfl

lemma expectation_eq_of_render_eq {expected other : Expectation}
    (h : expected.render = other.render) : expected = other := by
  cases expected <;> cases other <;> first | rfl | simp [Expectation.render] at h

/-- **The reader, the grammar and the scan agree on every text.**  It is read where the scan meets no
offence, and otherwise the error is at the first offence, with what is expected there; the grammar reads
it where the scan meets no offence, and otherwise the furthest place where a rule has failed is that of
the first offence, and the rules that have failed there are what is expected. -/
theorem parse_agrees_with_scan (text : String) :
    ((∃ e, Regex.parse text = .ok e) ↔ Scan.start.firstOffence 0 text.toList = none) ∧
      (∀ error, Regex.parse text = .error error ↔ ∃ offset expected,
        Scan.start.firstOffence 0 text.toList = some (offset, expected) ∧
          error = ⟨text, offset, expected⟩) ∧
      ((∃ y a, Runs (rule expression) ⟨0, text.toList⟩ .empty (some y) a) ↔
        Scan.start.firstOffence 0 text.toList = none) ∧
      ∀ offset expected, Scan.start.firstOffence 0 text.toList = some (offset, expected) ↔
        ∃ a, Runs (rule expression) ⟨0, text.toList⟩ .empty none a ∧ a.offset = offset ∧
          enumerate (a.expected.map Rule.render) = expected.render := by
  refine ⟨Regex.exists_parse_iff_scan, fun error => Regex.parse_eq_error_iff_scan,
    exists_runs_iff_scan, fun offset expected => ⟨fun hscan => ?_, ?_⟩⟩
  · exact ⟨_, runs_none_iff_scan.2 ⟨offset, expected, hscan, rfl⟩, rfl,
      enumerate_attempted offset expected⟩
  · rintro ⟨a, hfails, rfl, hrender⟩
    obtain ⟨offset, expected', hscan, rfl⟩ := runs_none_iff_scan.1 hfails
    rw [enumerate_attempted] at hrender
    rw [hscan, expectation_eq_of_render_eq hrender]

end FiniteAutomata.Grammar
