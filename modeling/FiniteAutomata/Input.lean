import FiniteAutomata.File
import FiniteAutomata.Text.Blank
import FiniteAutomata.Text.Lines

/-!
# Input

Files are read line by line. Bytes that are not UTF-8 end the reading at the line that holds them,
and the reader learns of it: an undecodable line is never taken for the end of the input. Nor is a
file that cannot be read at all taken for one without lines.

* `Input.ofString`, `Input.ofBytes`, `Input.ofContents` — the lines of a text and of a file.
* `Input.numbered`, `Input.filled` — all lines, and those that are not blank, with their numbers.
-/

namespace FiniteAutomata

/-- Why reading stops before the end of a file. -/
inductive ReadError
  /-- The next line is not valid UTF-8. -/
  | undecodable
  /-- The file cannot be read. -/
  | unreadable (error : FileError)
deriving DecidableEq

/-- The reason in words. -/
def ReadError.message : ReadError → String
  | undecodable => "stream did not contain valid UTF-8"
  | unreadable error => error.message

/-- What can be read from a text or a file. -/
structure Input where
  /-- The lines that can be read, without their ends. -/
  lines : List String
  /-- Why nothing can be read behind these lines; there is no reason if they are all there is. -/
  error : Option ReadError
deriving DecidableEq

/-- A line with its number in the input, counted from one. -/
structure Line where
  number : Nat
  text : String
deriving DecidableEq

namespace Input

/-- The lines of a text. -/
def ofString (s : String) : Input :=
  ⟨(Text.cutLines '\n' '\r' s.toList).map String.ofList, none⟩

/-- The decoded lines before the first one that could not be decoded. -/
def ofDecoded : List (Option String) → Input
  | [] => ⟨[], none⟩
  | none :: _ => ⟨[], some .undecodable⟩
  | some line :: rest =>
    let input := ofDecoded rest
    { input with lines := line :: input.lines }

/-- The lines of a file. -/
def ofBytes (bytes : ByteArray) : Input :=
  ofDecoded ((Text.cutLines 0x0a 0x0d bytes.toList).map fun line =>
    String.fromUTF8? line.toByteArray)

/-- The lines of a file that has been read, or none with the reason why it could not be. -/
def ofContents : FileContents → Input
  | .bytes bytes => ofBytes bytes
  | .unreadable error => ⟨[], some (.unreadable error)⟩

/-- Pairs lines with their numbers, the first of which is `first`. -/
def numberFrom (first : Nat) : List String → List Line
  | [] => []
  | line :: rest => ⟨first, line⟩ :: numberFrom (first + 1) rest

/-- All lines with their numbers. -/
def numbered (input : Input) : List Line := numberFrom 1 input.lines

/-- The lines that hold more than white space, under their numbers among all lines. -/
def filled (input : Input) : List Line :=
  input.numbered.filter fun line => !Text.isBlankText line.text

end Input

end FiniteAutomata
