/-!
# White space

The characters with the Unicode property `White_Space`. Everything that cuts text at blanks, be it
into words or at the ends of a line, asks this one question, so that all of them agree on what a
blank line is.
-/

namespace CommandShell.Text

/-- The code points with the property `White_Space`: the controls from tab to carriage return,
space, next line, and the space, line and paragraph separators. -/
def blanks : List Nat :=
  [0x09, 0x0A, 0x0B, 0x0C, 0x0D, 0x20, 0x85, 0xA0, 0x1680,
   0x2000, 0x2001, 0x2002, 0x2003, 0x2004, 0x2005, 0x2006, 0x2007, 0x2008, 0x2009, 0x200A,
   0x2028, 0x2029, 0x202F, 0x205F, 0x3000]

/-- Whether a character is white space. -/
def isBlank (c : Char) : Bool := blanks.contains c.toNat

/-- The zero-width space and the byte order mark are no white space. -/
example : isBlank '\u200B' = false ∧ isBlank '\uFEFF' = false := by decide

/-! ## Trimming -/

/-- Text without the white space at both of its ends. -/
def trimChars (cs : List Char) : List Char :=
  ((cs.dropWhile isBlank).reverse.dropWhile isBlank).reverse

@[inherit_doc trimChars]
def trim (text : String) : String := String.ofList (trimChars text.toList)

/-- Whether text has no character but white space. -/
def isBlankLine (text : String) : Bool := text.toList.all isBlank

end CommandShell.Text
