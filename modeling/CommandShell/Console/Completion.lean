import CommandShell.Text.Blank

/-!
# Completion

Only the first word of a line is completed, by the keywords that begin with what has been typed of
it. Positions in the line are counted in bytes of its UTF-8 form. The word at hand is taken to begin
one byte after the beginning of the last white space before the position, so there is nothing to
offer when that is in the middle of a character, nor when the position itself is.

Main definitions:

* `candidates`: where the word at hand begins, and the keywords that begin with it;
* `complete`: what the line editor is told of them.
-/

namespace CommandShell.Completion

/-- Some characters cut in two after a number of bytes, unless that is inside a character or beyond
the end. -/
def splitAtByte : Nat → List Char → Option (List Char × List Char)
  | 0, cs => some ([], cs)
  | _ + 1, [] => none
  | n + 1, c :: cs =>
    if c.utf8Size ≤ n + 1 then
      (splitAtByte (n + 1 - c.utf8Size) cs).map fun parts => (c :: parts.1, parts.2)
    else none

/-- How many bytes characters take. -/
def byteCount (cs : List Char) : Nat := cs.foldl (fun n c => n + c.utf8Size) 0

/-- Where the last white space begins, in bytes. -/
def lastBlank? (cs : List Char) : Option Nat :=
  match cs.reverse.dropWhile fun c => !Text.isBlank c with
  | [] => none
  | _ :: before => some (byteCount before)

/-- Where the word at the end of some characters is taken to begin. -/
def wordStart (before : List Char) : Nat :=
  match lastBlank? before with
  | none => 0
  | some blank => blank + 1

/-- Where the word before a position begins, and the keywords to put in its place. There is no
answer if one of the two positions is no boundary between characters of the line. -/
def candidates (keywords : List String) (line : String) (position : Nat) :
    Option (Nat × List String) :=
  match splitAtByte position line.toList with
  | none => none
  | some (before, _) =>
    match splitAtByte (wordStart before) before with
    | none => none
    | some (leading, word) =>
      if leading.all Text.isBlank then
        some (wordStart before, keywords.filter fun keyword => word.isPrefixOf keyword.toList)
      else some (wordStart before, [])

example : candidates ["give", "gamemode", "echo"] "  g" 3 = some (2, ["give", "gamemode"]) ∧
    candidates ["give"] "give g" 6 = some (5, []) ∧
    candidates ["give"] "\u00A0g" 3 = none := by decide

/-- A keyword as it is offered: the text to show, and the text to put in place of the word at
hand. -/
structure Offer where
  display : String
  replacement : String
deriving DecidableEq, Repr

/-- A keyword is shown as it is, and put in as it is. -/
def Offer.ofKeyword (keyword : String) : Offer := ⟨keyword, keyword⟩

/-- Where the word before a position begins, and what is offered for it. -/
def complete (keywords : List String) (line : String) (position : Nat) :
    Option (Nat × List Offer) :=
  (candidates keywords line position).map fun found => (found.1, found.2.map Offer.ofKeyword)

end CommandShell.Completion
