/-!
# Reports of failures

Every error of the library is a value of its own type; what a user is told about it is one form
for all: a message, and the messages of the errors that caused it, nearest first.

* `Failure.report` — the text in which a failure is shown.
-/

namespace FiniteAutomata

/-- What a user is told about an error. -/
structure Failure where
  /-- What went wrong. -/
  message : String
  /-- The messages of the causes, the nearest first. -/
  causes : List String
deriving DecidableEq

namespace Failure

/-- A failure that no other error caused. -/
def plain (message : String) : Failure := ⟨message, []⟩

/-- The message on a line of its own, followed by a line for each cause. -/
def report (f : Failure) : String :=
  f.message ++ "\n" ++ String.join (f.causes.map fun cause => "caused by: " ++ cause ++ "\n")

end Failure

end FiniteAutomata
