import FiniteAutomata.Regex.Parser
import Mathlib.Tactic.Common

/-!
# Where a text stops being a regular expression

To find out whether a text is a regular expression, and where it stops being one, no tree is needed: it is
enough to know how many groups are open, and whether an operand is needed.  What the reader keeps to the
left of its place can be forgotten, except for the number of groups.

* `Scan`, `Scan.step`, `Scan.finish` — the count and the need, and how characters change them.
* `Scan.firstOffence` — the first place where the text cannot go on, with what is expected there.
* `Progress.step_scan`, `Progress.run_scan` — the reader agrees with the scan, step by step and in the end.
* `exists_parse_iff_scan`, `parse_eq_error_iff_scan` — what the reader says of a text.
-/

namespace FiniteAutomata.Regex

/-- What the scan knows between two characters. -/
structure Scan where
  /-- The number of groups that are open. -/
  groups : Nat
  /-- Whether an operand is needed. -/
  needed : Bool
deriving DecidableEq

namespace Scan

/-- Before the first character. -/
def start : Scan := ⟨0, true⟩

/-- The scan at a character. -/
def step (s : Scan) (c : Char) : Except Expectation Scan :=
  if c = '(' then .ok ⟨s.groups + 1, true⟩
  else if s.needed then
    if isReserved c then .error .operand else .ok ⟨s.groups, false⟩
  else if c = ')' then
    match s.groups with
    | 0 => .error .outsideGroups
    | groups + 1 => .ok ⟨groups, false⟩
  else if c = '|' then .ok ⟨s.groups, true⟩
  else .ok s

/-- What is expected at the end of the text, if it cannot end there. -/
def finish (s : Scan) : Option Expectation :=
  if s.needed then some .operand else if s.groups = 0 then none else some .insideGroup

/-- The first offence in the characters that are left, the first of which has the number `offset`. -/
def firstOffence (s : Scan) (offset : Nat) : List Char → Option (Nat × Expectation)
  | [] => s.finish.map fun expected => (offset, expected)
  | c :: cs =>
    match s.step c with
    | .ok s => s.firstOffence (offset + 1) cs
    | .error expected => some (offset, expected)

end Scan

variable {s : Progress} {e operand : Regex} {c : Char} {cs : List Char} {offset : Nat}
  {expected : Expectation} {text : String}

namespace Progress

/-- What is left of the state of the reader when the trees are forgotten. -/
def scan (s : Progress) : Scan := ⟨s.groups.length, s.operand.isNone⟩

lemma stepOperand_scan (h : s.operand = none) :
    (s.stepOperand c).map scan = s.scan.step c := by
  by_cases hopen : c = '('
  · simp [stepOperand, Scan.step, scan, hopen, Except.map]
  · by_cases hreserved : isReserved c = true
    · simp [stepOperand, Scan.step, scan, h, hopen, hreserved, Except.map]
    · simp [stepOperand, Scan.step, scan, h, hopen, hreserved, Except.map]

lemma stepAfter_scan (h : s.operand = some operand) :
    (s.stepAfter operand c).map scan = s.scan.step c := by
  by_cases hstar : c = '*'
  · simp [stepAfter, Scan.step, scan, h, hstar, Except.map]
  by_cases hbar : c = '|'
  · simp [stepAfter, Scan.step, scan, h, hbar, Except.map]
  by_cases hclose : c = ')'
  · cases hgroups : s.groups <;>
      simp [stepAfter, Scan.step, scan, h, hclose, hgroups, Except.map]
  rw [stepAfter, if_neg hstar, if_neg hbar, if_neg hclose, stepOperand_scan rfl]
  by_cases hopen : c = '('
  · simp [Scan.step, scan, hopen]
  · simp [Scan.step, scan, h, hopen, hstar, hbar, hclose, isReserved]

/-- **A step of the reader is a step of the scan.** -/
theorem step_scan (s : Progress) (c : Char) : (s.step c).map scan = s.scan.step c := by
  rw [step]
  split
  · next h => exact stepOperand_scan h
  · next h => exact stepAfter_scan h

lemma finish_scan (s : Progress) :
    s.scan.finish = match s.finish with
      | .ok _ => none
      | .error expected => some expected := by
  obtain ⟨groups, level, operand⟩ := s
  cases operand <;> cases groups <;> rfl

/-- **The reader stops where the scan does**, and expects the same. -/
theorem run_scan (s : Progress) (offset : Nat) (cs : List Char) :
    s.scan.firstOffence offset cs = match s.run offset cs with
      | .ok _ => none
      | .error offence => some offence := by
  induction cs generalizing s offset with
  | nil =>
      rw [Scan.firstOffence, finish_scan, run]
      cases s.finish <;> rfl
  | cons c cs ih =>
      rw [Scan.firstOffence, run, ← step_scan]
      cases s.step c with
      | ok t => exact ih t (offset + 1)
      | error expected => rfl

end Progress

/-- **A text is read if and only if the scan meets no offence.** -/
theorem exists_parse_iff_scan :
    (∃ e, parse text = .ok e) ↔ Scan.start.firstOffence 0 text.toList = none := by
  rw [show Scan.start = Progress.start.scan from rfl, Progress.run_scan, parse]
  cases Progress.start.run 0 text.toList <;> simp [Except.mapError]

/-- **Otherwise the error is at the first offence**, and expects what is expected there. -/
theorem parse_eq_error_iff_scan {error : SyntaxError} :
    parse text = .error error ↔ ∃ offset expected,
      Scan.start.firstOffence 0 text.toList = some (offset, expected) ∧
        error = ⟨text, offset, expected⟩ := by
  rw [show Scan.start = Progress.start.scan from rfl, Progress.run_scan, parse]
  cases Progress.start.run 0 text.toList with
  | ok e => simp [Except.mapError]
  | error offence =>
      obtain ⟨offset, expected⟩ := offence
      simp [Except.mapError, eq_comm]

-- however many groups are open, the error is at the end of the text
example : parse "(a|(b" = .error ⟨"(a|(b", 5, .insideGroup⟩ := by decide

end FiniteAutomata.Regex
