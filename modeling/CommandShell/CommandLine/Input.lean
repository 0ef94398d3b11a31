import CommandShell.Console.Dialogue
import CommandShell.Files.Reader
import CommandShell.Text.Lines

/-!
# Input without a terminal

When the standard input is no terminal, a line editor only reads lines. The bytes are cut at line
feeds, and every line is decoded by itself, so bytes that are no text spoil only the reading of
their own line.
-/

namespace CommandShell.Reading

/-- The reading that the bytes of a line give. -/
def ofBytes (bytes : List UInt8) : Reading :=
  match decodeText ⟨bytes.toArray⟩ with
  | .ok text => .line text
  | .error failure => .failed failure.message

/-- The readings that a stream of bytes gives. -/
def ofStream (bytes : ByteArray) : List Reading :=
  (Text.Piece.split 10 bytes.toList).map fun p => ofBytes (p.line 13)

end CommandShell.Reading
