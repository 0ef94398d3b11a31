import CommandShell.Text.Unprintable

/-!
# Quoted text

Text between double quotes, in a form that shows every character on one line. A quote and a
backslash are written after a backslash, the four common controls by their letters, and any other
character that cannot be shown by its code point, as `\u{1b}`. All else stands for itself, the
single quote included.
-/

namespace CommandShell.Text

/-- The code point of a character in lower-case hexadecimal digits, without padding. -/
def codePointEscape (c : Char) : List Char :=
  ['\\', 'u', '\x7b'] ++ Nat.toDigits 16 c.toNat ++ ['\x7d']

/-- How one character is written between quotes. -/
def quoteChar (c : Char) : List Char :=
  match c with
  | '"' => ['\\', '"']
  | '\\' => ['\\', '\\']
  | '\n' => ['\\', 'n']
  | '\r' => ['\\', 'r']
  | '\t' => ['\\', 't']
  | '\x00' => ['\\', '0']
  | c => if isUnprintable c then codePointEscape c else [c]

/-- Text between double quotes. -/
def quoted (text : String) : String :=
  String.ofList ('"' :: text.toList.flatMap quoteChar ++ ['"'])

/-- Quotes are escaped, apostrophes are not, and the escape character is shown by its number. -/
example : quoted "it's \"\x1b\"" = "\"it's \\\"\\u\x7b1b\x7d\\\"\"" := by decide +kernel

end CommandShell.Text
