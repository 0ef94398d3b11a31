/-!
# Reading files

What a shell needs of a file system: the text at a path, or why there is none. The reasons are those
of the operating system, with its wording and number.
-/

namespace CommandShell

/-- Why a file cannot be read as text. -/
inductive ReadFailure where
  | notFound
  | notDirectory
  | isDirectory
  | nameTooLong
  | nulInPath
  | invalidText
  /-- Any other reason, as the operating system words it. -/
  | other (message : String)
deriving DecidableEq, Repr

/-- The wording of a reason. -/
def ReadFailure.message : ReadFailure → String
  | .notFound => "No such file or directory (os error 2)"
  | .notDirectory => "Not a directory (os error 20)"
  | .isDirectory => "Is a directory (os error 21)"
  | .nameTooLong => "File name too long (os error 36)"
  | .nulInPath => "file name contained an unexpected NUL byte"
  | .invalidText => "stream did not contain valid UTF-8"
  | .other message => message

/-- The text at a path, or why it cannot be read. -/
abbrev FileReader := String → Except ReadFailure String

/-- Bytes as text. -/
def decodeText (bytes : ByteArray) : Except ReadFailure String :=
  match String.fromUTF8? bytes with
  | some text => .ok text
  | none => .error .invalidText

end CommandShell
