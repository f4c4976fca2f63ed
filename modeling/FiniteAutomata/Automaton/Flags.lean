/-!
# Marks of a state

A state may be initial, final, both or neither.

* `Flags.union`, `Flags.without`, `Flags.contains` — marks as sets.
* `Flags.render` — marks as they are listed, `Flags.mark` — marks behind a label in a file.
-/

namespace FiniteAutomata

/-- The marks of a state. -/
structure Flags where
  /-- Whether runs may begin in the state. -/
  initial : Bool
  /-- Whether runs may end in the state. -/
  final : Bool
deriving DecidableEq

namespace Flags

/-- No mark. -/
def empty : Flags := ⟨false, false⟩

/-- Initial and not final. -/
def onlyInitial : Flags := ⟨true, false⟩

/-- Final and not initial. -/
def onlyFinal : Flags := ⟨false, true⟩

/-- Initial and final. -/
def both : Flags := ⟨true, true⟩

/-- The marks of either. -/
def union (a b : Flags) : Flags := ⟨a.initial || b.initial, a.final || b.final⟩

/-- The marks of `a` that are not among those of `b`. -/
def without (a b : Flags) : Flags := ⟨a.initial && !b.initial, a.final && !b.final⟩

@[simp] theorem initial_without (a b : Flags) : (a.without b).initial = (a.initial && !b.initial) :=
  rfl

@[simp] theorem final_without (a b : Flags) : (a.without b).final = (a.final && !b.final) := rfl

/-- Whether `a` has all marks of `b`. -/
def contains (a b : Flags) : Bool := (!b.initial || a.initial) && (!b.final || a.final)

/-- The marks in words. -/
def render : Flags → String
  | ⟨true, true⟩ => "INITIAL | FINAL"
  | ⟨true, false⟩ => "INITIAL"
  | ⟨false, true⟩ => "FINAL"
  | ⟨false, false⟩ => "NONE"

/-- What follows the label of a state in a file. -/
def mark : Flags → String
  | ⟨true, true⟩ => " IF"
  | ⟨true, false⟩ => " I"
  | ⟨false, true⟩ => " F"
  | ⟨false, false⟩ => ""

end Flags

end FiniteAutomata
