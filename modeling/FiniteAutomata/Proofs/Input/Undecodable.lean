import FiniteAutomata.Proofs.Automaton.Refusal
import FiniteAutomata.Proofs.Input.Bytes
import FiniteAutomata.Proofs.Instruction.Reading

/-!
# Files that hold no text

A line that cannot be decoded ends an input as the end of the file does, and it is left to the readers to
tell one from the other.  The reader of automata misses a line if it expects one there, and otherwise says
what it was that ended the input; the reader of instructions, who never expects a line, always does so.
Neither takes the line for the end of the file.

* `FormatError.brokenOff` — what is said of an input that breaks off.
* `exists_read_eq_error`, `exists_readAll_eq_error` — both readers on inputs that break off.
* **`readers_fail_of_not_isValidUTF8`** — both readers on files that hold no text.
-/

namespace FiniteAutomata

variable {input : Input} {error : ReadError}

/-! ## Automata -/

/-- The line that is expected next is missing, or no line is and the reader has to say why there is
none. -/
def FormatError.brokenOff (error : ReadError) : Option Expected → FormatError
  | some what => .missing what
  | none => .interrupted error

lemma Expects.refused {next : Option Expected} (h : Expects input.filled next)
    (herror : input.error = some error) : Refused input (.brokenOff error next) := by
  cases next with
  | some what => exact .missing h
  | none => exact .interrupted h herror

/-- An input that breaks off holds no automaton, and if every line up to there is what is expected in its
place, what is expected next says which error this is. -/
lemma exists_read_eq_error (kind : Kind) (herror : input.error = some error) :
    ∃ refusal, Automaton.read kind input = .error refusal ∧ Refused input refusal.error ∧
      ∀ next, Expects input.filled next → refusal.error = .brokenOff error next := by
  cases hread : Automaton.read kind input with
  | ok r =>
      have hnone := (Automaton.read_eq_ok_iff.1 hread).1
      rw [herror] at hnone
      cases hnone
  | error refusal =>
      refine ⟨refusal, rfl, Automaton.failsWith_read_iff.1 ⟨_, hread⟩, fun next h => ?_⟩
      obtain ⟨warnings, hfails⟩ := Automaton.failsWith_read_iff.2 (h.refused herror)
      rw [hread] at hfails
      rw [Except.error.inj hfails]

/-! ## Instructions -/

/-- An input that breaks off holds no instructions, and if every line up to there holds one, the error is
that the input breaks off. -/
lemma exists_readAll_eq_error (herror : input.error = some error) :
    ∃ e, Instruction.readAll input = .error e ∧
      ((∀ line ∈ input.numbered, line.HoldsOperation) → e = .interrupted error) := by
  cases hread : Instruction.readAll input with
  | ok program =>
      have hnone := (Instruction.readAll_eq_ok_iff.1 hread).1
      rw [herror] at hnone
      cases hnone
  | error e =>
      refine ⟨e, rfl, fun h => ?_⟩
      have hfails := Instruction.readAll_eq_error_iff.2 (.inr ⟨h, error, herror, rfl⟩)
      rw [hread] at hfails
      exact Except.error.inj hfails

/-! ## Both readers -/

/-- **A byte that is no text is never taken for the end of a file.** Both readers fail on files with such
bytes. If nothing is wrong with the lines before the first one that cannot be decoded, the reader of
automata misses what it expects there or, behind the symbols, reports the line, and the reader of
instructions reports it everywhere. -/
theorem readers_fail_of_not_isValidUTF8 {bytes : ByteArray} (h : ¬ bytes.IsValidUTF8) :
    (∃ before bad behind, Text.cutLines 0x0a 0x0d bytes.toList = before ++ bad :: behind ∧
      before.map (fun line => String.fromUTF8? line.toByteArray) =
        (Input.ofBytes bytes).lines.map some ∧ ¬ bad.toByteArray.IsValidUTF8) ∧
    (∀ kind, ∃ refusal, Automaton.read kind (.ofBytes bytes) = .error refusal ∧
      Refused (.ofBytes bytes) refusal.error ∧
        ∀ next, Expects (Input.ofBytes bytes).filled next →
          refusal.error = .brokenOff .undecodable next) ∧
    ∃ e, Instruction.readAll (.ofBytes bytes) = .error e ∧
      ((∀ line ∈ (Input.ofBytes bytes).numbered, line.HoldsOperation) →
        e = .interrupted .undecodable) := by
  obtain ⟨herror, hlines⟩ := Input.ofBytes_of_not_isValidUTF8 h
  exact ⟨hlines, fun kind => exists_read_eq_error kind herror, exists_readAll_eq_error herror⟩

/-- A digit and a zero, each on a line, and a byte that is no text. -/
def unreadable (digit : UInt8) : ByteArray := ⟨#[digit, 0x0a, 0x30, 0x0a, 0xff]⟩

theorem readers_fail_unreadable :
    ((¬ (unreadable 0x31).IsValidUTF8 ∧ ∃ refusal,
      Automaton.read .nondeterministic (.ofBytes (unreadable 0x31)) = .error refusal ∧
        refusal.error = .missing .state) ∧
      Instruction.readAll (.ofBytes (unreadable 0x31)) = .error (.interrupted .undecodable)) ∧
    ¬ (unreadable 0x30).IsValidUTF8 ∧ ∃ refusal,
      Automaton.read .deterministic (.ofBytes (unreadable 0x30)) = .error refusal ∧
        refusal.error = .interrupted .undecodable := by
  have hone : Numeral.parse "1" = .ok 1 := rfl
  have hzero : Numeral.parse "0" = .ok 0 := rfl
  constructor
  · have hvalid : ¬ (unreadable 0x31).IsValidUTF8 := by decide
    have hfilled : (Input.ofBytes (unreadable 0x31)).filled = [⟨1, "1"⟩, ⟨2, "0"⟩] := by
      decide +kernel
    have hnumbered : (Input.ofBytes (unreadable 0x31)).numbered = [⟨1, "1"⟩, ⟨2, "0"⟩] := by
      decide +kernel
    obtain ⟨-, hread, e, hall, he⟩ := readers_fail_of_not_isValidUTF8 hvalid
    obtain ⟨refusal, hrefusal, -, hnext⟩ := hread .nondeterministic
    -- one state is announced, and none has come
    have hexpects : Expects [⟨1, "1"⟩, ⟨2, "0"⟩] (some .state) :=
      .state hone hzero (fun _ h => absurd h List.not_mem_nil) Nat.zero_lt_one
    refine ⟨⟨hvalid, refusal, hrefusal, hnext (some .state) (hfilled ▸ hexpects)⟩, ?_⟩
    rw [hall, he]
    rw [hnumbered]
    exact List.forall_mem_cons.2 ⟨⟨_, rfl⟩, List.forall_mem_singleton.2 ⟨_, rfl⟩⟩
  · have hvalid : ¬ (unreadable 0x30).IsValidUTF8 := by decide
    have hfilled : (Input.ofBytes (unreadable 0x30)).filled = [⟨1, "0"⟩, ⟨2, "0"⟩] := by
      decide +kernel
    obtain ⟨-, hread, -⟩ := readers_fail_of_not_isValidUTF8 hvalid
    obtain ⟨refusal, hrefusal, -, hnext⟩ := hread .deterministic
    have hexpects : Expects [⟨1, "0"⟩, ⟨2, "0"⟩] none :=
      @Expects.edge ⟨1, "0"⟩ ⟨2, "0"⟩ [] [] [] hzero hzero (fun _ h => absurd h List.not_mem_nil)
        fun _ h => absurd h List.not_mem_nil
    exact ⟨hvalid, refusal, hrefusal, hnext none (hfilled ▸ hexpects)⟩

end FiniteAutomata
