import FiniteAutomata.Proofs.Automaton.Reading

/-!
# What the reader refuses

The reader goes from line to line and stops at the first one that does not hold what is expected in its
place.  What is expected there follows from the lines before it: the two numbers say how many states and
symbols there are, and behind these every line is an edge.  The error names the line or, where the lines
have come to an end too early, what the next one should have held.  Warnings play no part in it.

* `FailsWith` — how a computation fails, the warnings apart.
* `Expects` — lines in their places, and what is expected behind them.
* `Refused` — the first thing that goes wrong with an input.
* `Reading.failsWith_readStates_iff` and its siblings — one part each.
* **`Automaton.failsWith_read_iff`** — the reader fails with the first thing that goes wrong, and only
  then.
-/

namespace FiniteAutomata

/-! ## Computations that fail -/

section FailsWith

variable {α β : Type} {e : FormatError}

/-- The computation fails with the error, whatever there were warnings of before. -/
def FailsWith (x : Except Refusal α) (e : FormatError) : Prop :=
  ∃ warnings, x = .error ⟨e, warnings⟩

@[simp] lemma not_failsWith_ok {a : α} : ¬ FailsWith (.ok a) e := by
  rintro ⟨_, h⟩
  cases h

lemma forall_not_failsWith_iff {x : Except Refusal α} :
    (∀ e, ¬ FailsWith x e) ↔ ∃ a, x = .ok a := by
  cases x with
  | error refusal =>
      refine iff_of_false (fun h => h refusal.error ⟨refusal.warnings, rfl⟩) ?_
      rintro ⟨_, ⟨⟩⟩
  | ok a => exact iff_of_true (fun e => not_failsWith_ok) ⟨a, rfl⟩

@[simp] lemma failsWith_refuse_iff {r : Reading} {d : FormatError} :
    FailsWith (r.refuse d : Except Refusal α) e ↔ e = d := by
  constructor
  · rintro ⟨warnings, h⟩
    exact (Refusal.mk.inj (Except.error.inj h)).1.symm
  · rintro rfl
    exact ⟨r.warnings, rfl⟩

lemma failsWith_bind_iff {x : Except Refusal α} {g : α → Except Refusal β} :
    FailsWith (x >>= g) e ↔ FailsWith x e ∨ ∃ a, x = .ok a ∧ FailsWith (g a) e := by
  simp only [FailsWith, bind_eq_error_iff, exists_or]
  refine or_congr_right ⟨?_, ?_⟩
  · rintro ⟨warnings, a, ha, h⟩
    exact ⟨a, ha, warnings, h⟩
  · rintro ⟨a, ha, warnings, h⟩
    exact ⟨warnings, a, ha, h⟩

lemma FailsWith.first {x : Except Refusal α} {g : α → Except Refusal β} (h : FailsWith x e) :
    FailsWith (x >>= g) e := failsWith_bind_iff.2 (.inl h)

lemma FailsWith.behind {x : Except Refusal α} {g : α → Except Refusal β} {a : α} (ha : x = .ok a)
    (h : FailsWith (g a) e) : FailsWith (x >>= g) e := failsWith_bind_iff.2 (.inr ⟨a, ha, h⟩)

end FailsWith

/-! ## Lines in their places -/

namespace Line

/-- The line holds a state. -/
def HoldsState (line : Line) : Prop := ∃ state, Automaton.parseState line.text = some state

/-- The line holds an edge. -/
def HoldsEdge (line : Line) : Prop := ∃ edge, Automaton.parseEdge line.text = some edge

end Line

/-- Every line holds what is expected in its place, and what is expected behind them.  Behind the symbols
nothing is, since edges follow for as long as there are lines. -/
inductive Expects : List Line → Option Expected → Prop
  | stateCount : Expects [] (some .stateCount)
  | symbolCount {first : Line} {n : Nat} (hn : Numeral.parse first.text = .ok n) :
      Expects [first] (some .symbolCount)
  | state {first second : Line} {n m : Nat} {states : List Line}
      (hn : Numeral.parse first.text = .ok n) (hm : Numeral.parse second.text = .ok m)
      (hstates : ∀ line ∈ states, line.HoldsState) (hlt : states.length < n) :
      Expects (first :: second :: states) (some .state)
  | symbol {first second : Line} {m : Nat} {states symbols : List Line}
      (hn : Numeral.parse first.text = .ok states.length) (hm : Numeral.parse second.text = .ok m)
      (hstates : ∀ line ∈ states, line.HoldsState) (hlt : symbols.length < m) :
      Expects (first :: second :: (states ++ symbols)) (some .symbol)
  | edge {first second : Line} {states symbols edges : List Line}
      (hn : Numeral.parse first.text = .ok states.length)
      (hm : Numeral.parse second.text = .ok symbols.length)
      (hstates : ∀ line ∈ states, line.HoldsState) (hedges : ∀ line ∈ edges, line.HoldsEdge) :
      Expects (first :: second :: (states ++ (symbols ++ edges))) none

/-- The error is that of the first line that does not hold what is expected in its place; there may be no
line in its place, or nothing wrong up to where the input breaks off. -/
inductive Refused (input : Input) : FormatError → Prop
  | missing {what : Expected} (h : Expects input.filled (some what)) : Refused input (.missing what)
  | number {before rest : List Line} {line : Line} {what : Expected} {d : NumeralError}
      (hlines : input.filled = before ++ line :: rest) (h : Expects before (some what))
      (hwhat : what = .stateCount ∨ what = .symbolCount)
      (hparse : Numeral.parse line.text = .error d) : Refused input (.number d)
  | state {before rest : List Line} {line : Line} (hlines : input.filled = before ++ line :: rest)
      (h : Expects before (some .state)) (hparse : ¬ line.HoldsState) :
      Refused input (.invalidState line)
  | edge {before rest : List Line} {line : Line} (hlines : input.filled = before ++ line :: rest)
      (h : Expects before none) (hparse : ¬ line.HoldsEdge) : Refused input (.invalidEdge line)
  | interrupted {error : ReadError} (h : Expects input.filled none)
      (herror : input.error = some error) : Refused input (.interrupted error)

/-! ## One part after the other -/

namespace Reading

variable {r : Reading} {lines : List Line} {count : Nat} {e : FormatError}

lemma failsWith_readCount_iff {what : Expected} :
    FailsWith (r.readCount what lines) e ↔
      lines = [] ∧ e = .missing what ∨
        ∃ line rest d, lines = line :: rest ∧ Numeral.parse line.text = .error d ∧
          e = .number d := by
  cases lines with
  | nil => simp [readCount]
  | cons line lines =>
      rw [readCount]
      cases hparse : Numeral.parse line.text with
      | error d => simp [hparse]
      | ok n => simp [hparse]

lemma failsWith_readStates_iff :
    FailsWith (r.readStates count lines) e ↔
      (∀ line ∈ lines, line.HoldsState) ∧
          lines.length < count ∧ e = .missing .state ∨
        ∃ before line rest, lines = before ++ line :: rest ∧
          (∀ line ∈ before, line.HoldsState) ∧
            before.length < count ∧ ¬ line.HoldsState ∧
              e = .invalidState line := by
  induction count generalizing r lines with
  | zero => simp [readStates]
  | succ count ih =>
      cases lines with
      | nil => simp [readStates]
      | cons line lines =>
          rw [readStates, exists_cons_eq_append_cons_iff]
          cases hparse : Automaton.parseState line.text with
          | none => simp [Line.HoldsState, hparse]
          | some state =>
              have hline : line.HoldsState := ⟨state, hparse⟩
              simp [ih, hline]

lemma failsWith_readSymbols_iff :
    FailsWith (r.readSymbols count lines) e ↔ lines.length < count ∧ e = .missing .symbol := by
  induction count generalizing r lines with
  | zero => simp [readSymbols]
  | succ count ih =>
      cases lines with
      | nil => simp [readSymbols]
      | cons line lines => rw [readSymbols, ih, List.length_cons, Nat.succ_lt_succ_iff]

lemma failsWith_readEdges_iff :
    FailsWith (r.readEdges lines) e ↔
      ∃ before line rest, lines = before ++ line :: rest ∧
        (∀ line ∈ before, line.HoldsEdge) ∧
          ¬ line.HoldsEdge ∧ e = .invalidEdge line := by
  induction lines generalizing r with
  | nil => simp [readEdges]
  | cons line lines ih =>
      rw [readEdges, exists_cons_eq_append_cons_iff]
      cases hparse : Automaton.parseEdge line.text with
      | none => simp [Line.HoldsEdge, hparse]
      | some edge =>
          have hline : line.HoldsEdge := ⟨edge, hparse⟩
          simp [ih, hline]

end Reading

namespace Automaton

variable {kind : Kind} {input : Input} {e : FormatError}

/-- What goes wrong is the first thing to do so. -/
lemma refused_of_failsWith_read (h : FailsWith (read kind input) e) : Refused input e := by
  simp only [read, failsWith_bind_iff, Prod.exists, Reading.failsWith_readCount_iff,
    Reading.failsWith_readStates_iff, Reading.failsWith_readSymbols_iff,
    Reading.failsWith_readEdges_iff, Reading.readCount_eq_ok_iff, Reading.readStates_eq_ok_iff,
    Reading.readSymbols_eq_ok_iff, Reading.readEdges_eq_ok_iff] at h
  rcases h with (⟨hfilled, rfl⟩ | ⟨first, rest, d, hfilled, hd, rfl⟩) |
    ⟨n, _, ⟨first, hfilled, hn⟩, h⟩
  · exact .missing (hfilled ▸ .stateCount)
  · exact .number hfilled .stateCount (.inl rfl) hd
  rcases h with (⟨rfl, rfl⟩ | ⟨second, rest, d, rfl, hd, rfl⟩) | ⟨m, _, ⟨second, rfl, hm⟩, h⟩
  · exact .missing (hfilled ▸ .symbolCount hn)
  · exact .number hfilled (.symbolCount hn) (.inr rfl) hd
  rcases h with (⟨hstates, hlt, rfl⟩ | ⟨before, line, rest, rfl, hbefore, hlt, hline, rfl⟩) |
    ⟨_, _, ⟨states, rfl, rfl, _, hstates, rfl⟩, h⟩
  · exact .missing (hfilled ▸ .state hn hm hstates hlt)
  · exact .state hfilled (.state hn hm hbefore hlt) hline
  have hstates := forall_exists_iff_forall₂.2 ⟨_, hstates⟩
  rcases h with ⟨hlt, rfl⟩ | ⟨_, _, ⟨symbols, rfl, rfl, rfl⟩, h⟩
  · exact .missing (hfilled ▸ .symbol hn hm hstates hlt)
  rcases h with ⟨before, line, rest, rfl, hbefore, hline, rfl⟩ | ⟨_, ⟨_, hedges, rfl⟩, h⟩
  · have hlines : input.filled =
        (first :: second :: (states ++ (symbols ++ before))) ++ line :: rest := by
      rw [hfilled]
      simp
    exact .edge hlines (.edge hn hm hstates hbefore) hline
  · have hedges := forall_exists_iff_forall₂.2 ⟨_, hedges⟩
    cases herror : input.error with
    | none =>
        rw [herror] at h
        exact absurd h not_failsWith_ok
    | some error =>
        rw [herror] at h
        rw [failsWith_refuse_iff.1 h]
        exact .interrupted (hfilled ▸ .edge hn hm hstates hedges) herror

/-- The first thing that goes wrong is found. -/
lemma failsWith_read_of_refused (h : Refused input e) : FailsWith (read kind input) e := by
  rw [read]
  cases h with
  | missing h =>
      generalize hfilled : input.filled = lines at h
      cases h with
      | stateCount => exact .first (Reading.failsWith_readCount_iff.2 (.inl ⟨rfl, rfl⟩))
      | symbolCount hn =>
          refine .behind (Reading.readCount_eq_ok_iff.2 ⟨_, rfl, hn⟩) ?_
          exact .first (Reading.failsWith_readCount_iff.2 (.inl ⟨rfl, rfl⟩))
      | state hn hm hstates hlt =>
          refine .behind (Reading.readCount_eq_ok_iff.2 ⟨_, rfl, hn⟩) ?_
          refine .behind (Reading.readCount_eq_ok_iff.2 ⟨_, rfl, hm⟩) ?_
          exact .first (Reading.failsWith_readStates_iff.2 (.inl ⟨hstates, hlt, rfl⟩))
      | symbol hn hm hstates hlt =>
          obtain ⟨_, hheld⟩ := forall_exists_iff_forall₂.1 hstates
          refine .behind (Reading.readCount_eq_ok_iff.2 ⟨_, rfl, hn⟩) ?_
          refine .behind (Reading.readCount_eq_ok_iff.2 ⟨_, rfl, hm⟩) ?_
          refine .behind (Reading.readStates_eq_ok_iff.2 ⟨_, rfl, rfl, _, hheld, rfl⟩) ?_
          exact .first (Reading.failsWith_readSymbols_iff.2 ⟨hlt, rfl⟩)
  | number hlines h hwhat hd =>
      rw [hlines]
      cases h with
      | stateCount => exact .first (Reading.failsWith_readCount_iff.2 (.inr ⟨_, _, _, rfl, hd, rfl⟩))
      | symbolCount hn =>
          refine .behind (Reading.readCount_eq_ok_iff.2 ⟨_, rfl, hn⟩) ?_
          exact .first (Reading.failsWith_readCount_iff.2 (.inr ⟨_, _, _, rfl, hd, rfl⟩))
      | state => simp at hwhat
      | symbol => simp at hwhat
  | state hlines h hline =>
      rw [hlines]
      cases h with
      | state hn hm hstates hlt =>
          refine .behind (Reading.readCount_eq_ok_iff.2 ⟨_, rfl, hn⟩) ?_
          refine .behind (Reading.readCount_eq_ok_iff.2 ⟨_, rfl, hm⟩) ?_
          exact .first (Reading.failsWith_readStates_iff.2
            (.inr ⟨_, _, _, rfl, hstates, hlt, hline, rfl⟩))
  | edge hlines h hline =>
      rw [hlines]
      cases h with
      | edge hn hm hstates hedges =>
          obtain ⟨_, hheld⟩ := forall_exists_iff_forall₂.1 hstates
          refine .behind (Reading.readCount_eq_ok_iff.2 ⟨_, rfl, hn⟩) ?_
          refine .behind (Reading.readCount_eq_ok_iff.2 ⟨_, rfl, hm⟩) ?_
          refine .behind (Reading.readStates_eq_ok_iff.2
            ⟨_, List.append_assoc _ _ _, rfl, _, hheld, rfl⟩) ?_
          refine .behind (Reading.readSymbols_eq_ok_iff.2 ⟨_, List.append_assoc _ _ _, rfl, rfl⟩) ?_
          exact .first (Reading.failsWith_readEdges_iff.2 ⟨_, _, _, rfl, hedges, hline, rfl⟩)
  | interrupted h herror =>
      generalize hfilled : input.filled = lines at h
      cases h with
      | edge hn hm hstates hedges =>
          obtain ⟨_, hheld⟩ := forall_exists_iff_forall₂.1 hstates
          obtain ⟨_, hleft⟩ := forall_exists_iff_forall₂.1 hedges
          refine .behind (Reading.readCount_eq_ok_iff.2 ⟨_, rfl, hn⟩) ?_
          refine .behind (Reading.readCount_eq_ok_iff.2 ⟨_, rfl, hm⟩) ?_
          refine .behind (Reading.readStates_eq_ok_iff.2 ⟨_, rfl, rfl, _, hheld, rfl⟩) ?_
          refine .behind (Reading.readSymbols_eq_ok_iff.2 ⟨_, rfl, rfl, rfl⟩) ?_
          refine .behind (Reading.readEdges_eq_ok_iff.2 ⟨_, hleft, rfl⟩) ?_
          rw [herror]
          exact failsWith_refuse_iff.2 rfl

/-- **The reader fails with the error of the first line that does not hold what is expected in its
place.** -/
theorem failsWith_read_iff : FailsWith (read kind input) e ↔ Refused input e :=
  ⟨refused_of_failsWith_read, failsWith_read_of_refused⟩

end Automaton

end FiniteAutomata
