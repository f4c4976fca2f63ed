/-!
# What can be wrong with a file

A file is opened or created under a name, and then read or written. Each may fail, for a reason that
users are told in the words of the operating system, with its number for the reason.

* `FileError` — the reasons.
* `FileContents` — what reading an open file yields.
* `WriteError` — at which step the writing of a file fails.
-/

namespace FiniteAutomata

/-- Why a file cannot be opened, created, read or written. -/
inductive FileError
  /-- There is nothing of this name. -/
  | notFound
  /-- The name goes through something, or names something, that should be a directory. -/
  | notDirectory
  /-- The name is that of a directory. -/
  | isDirectory
  /-- The name is longer than any file can have. -/
  | nameTooLong
  /-- The name is that of a device which is not there. -/
  | noDevice
  /-- There is no room for what is written. -/
  | noSpace
  /-- Something else, in words. -/
  | other (reason : String)
deriving DecidableEq

/-- The reason in words. -/
def FileError.message : FileError → String
  | notFound => "No such file or directory (os error 2)"
  | notDirectory => "Not a directory (os error 20)"
  | isDirectory => "Is a directory (os error 21)"
  | nameTooLong => "File name too long (os error 36)"
  | noDevice => "No such device or address (os error 6)"
  | noSpace => "No space left on device (os error 28)"
  | other reason => reason

/-- What reading an open file yields. -/
inductive FileContents
  | bytes (bytes : ByteArray)
  /-- Nothing can be read from it, as from a directory. -/
  | unreadable (error : FileError)

/-- Why a file does not hold what has been meant for it. -/
inductive WriteError
  /-- The file could not be created. -/
  | create (error : FileError)
  /-- The file is there, but could not be written. -/
  | write (error : FileError)
deriving DecidableEq

end FiniteAutomata
