/-!
# Lines of a text

A line feed ends a line, and a carriage return directly before it belongs to the line break. The
last line may do without a line break; then a carriage return at its end is a character of the
line. A line break at the end of a text does not begin another, empty line.

`Piece` keeps apart what the two readers of lines need: a script takes the lines of a whole text,
a stream of bytes is cut first and decoded line by line.
-/

namespace CommandShell.Text

/-- A stretch of text up to its line feed, or up to the end of the text if there is none. -/
structure Piece (α : Type) where
  content : List α
  /-- Whether a line feed, which is not part of the content, ended the piece. -/
  ended : Bool
deriving Repr, DecidableEq

namespace Piece

variable {α : Type} [DecidableEq α]

/-- Puts a symbol that is no line feed in front of the first piece. -/
def consFirst (a : α) : List (Piece α) → List (Piece α)
  | [] => [⟨[a], false⟩]
  | p :: ps => { p with content := a :: p.content } :: ps

/-- Cuts symbols at every line feed. -/
def split (feed : α) : List α → List (Piece α)
  | [] => []
  | a :: as => if a = feed then ⟨[], true⟩ :: split feed as else consFirst a (split feed as)

/-- The line that a piece holds: if it was ended, one return at its end goes with the line feed. -/
def line (ret : α) (p : Piece α) : List α :=
  if p.ended && p.content.getLast? == some ret then p.content.dropLast else p.content

/-- Joining the pieces gives the symbols back, whatever the line feed is. -/
def join (feed : α) (ps : List (Piece α)) : List α :=
  ps.flatMap fun p => if p.ended then p.content ++ [feed] else p.content

omit [DecidableEq α] in
theorem join_consFirst (feed a : α) (ps : List (Piece α)) :
    join feed (consFirst a ps) = a :: join feed ps := by
  cases ps with
  | nil => rfl
  | cons p ps => cases h : p.ended <;> simp [consFirst, join, h]

/-- Nothing is lost by the cut. -/
theorem join_split (feed : α) (as : List α) : join feed (split feed as) = as := by
  induction as with
  | nil => rfl
  | cons a as ih =>
    by_cases h : a = feed
    · simpa [split, h, join] using ih
    · simp [split, h, join_consFirst, ih]

end Piece

/-- The lines of a text, in order. -/
def lines (text : String) : List String :=
  (Piece.split '\n' text.toList).map fun p => String.ofList (p.line '\r')

/-- A line break closes a line and opens none, and only a full line break swallows a return. -/
example : lines "a\r\n\nb\r" = ["a", "", "b\r"] := by decide

end CommandShell.Text
