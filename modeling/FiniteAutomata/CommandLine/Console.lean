import FiniteAutomata.File

/-!
# What commands need of their surroundings

Commands read and write files, read the standard input, and print. They do so through a record of
functions, so that the same commands run in any monad: against the operating system, or where files
and streams are plain values.

* `Console` — the record.
-/

namespace FiniteAutomata

/-- Access to files and standard streams. Where access to a file fails, the reason is the result. -/
structure Console (m : Type → Type) where
  /-- What reading a file yields. -/
  readFile : String → m (Except FileError FileContents)
  /-- Replaces the contents of a file. -/
  writeFile : String → String → m (Except WriteError Unit)
  /-- The bytes of the standard input. -/
  readInput : m ByteArray
  /-- Writes to the standard output. -/
  print : String → m Unit
  /-- Writes to the standard error stream. -/
  printError : String → m Unit

end FiniteAutomata
