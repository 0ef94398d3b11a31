import CommandShell.Value.Basic
import CommandShell.Number.Numeral
import CommandShell.Text.Quoted

/-!
# Parameters

A parameter says which words a command takes at one place and what value they become. A scalar
parameter takes one word: a numeral, any text, or one fixed word. An array takes the words of its
elements, one element after the other, up to its end word.

Main definitions:

* `Scalar.accepts`, `Scalar.convert?`: which words a scalar takes and what they become;
* `Param.display`: how a signature shows a parameter;
* `Param.describe`: the kind of a parameter, in which names and end words do not show; parameters
  are alike when they have the same description;
* `Param.priority`: which of two unlike parameters goes before the other.
-/

namespace CommandShell

/-- A parameter that takes a single word. -/
inductive Scalar where
  /-- A run of digits that fits into a signed 64-bit integer. -/
  | int (name : String)
  /-- A run of digits, or two with a point between them. -/
  | float (name : String)
  /-- Any word. -/
  | str (name : String)
  /-- Exactly the given word. -/
  | switch (word : String)
deriving DecidableEq, Repr

/-- What a command takes at one place. -/
inductive Param where
  | scalar (s : Scalar)
  /-- Any number of elements, closed by the end word. -/
  | array (endWord : String) (element : Param)
deriving DecidableEq, Repr

/-! ## Scalars -/

namespace Scalar

/-- The largest integer that an argument can be. -/
def maxInt : Nat := 9223372036854775807

/-- Whether a scalar takes a word. -/
def accepts : Scalar → String → Bool
  | .int _, word => Numeral.isDigits word.toList && Numeral.ofDigits word.toList ≤ maxInt
  | .float _, word => Numeral.isDecimal word.toList
  | .str _, _ => true
  | .switch expected, word => word == expected

/-- What a scalar makes of a word that it takes. -/
def value : Scalar → String → Value
  | .int _, word => .int (Int64.ofNat (Numeral.ofDigits word.toList))
  | .float _, word => .float (Numeral.toBinary64 word.toList)
  | .str _, word | .switch _, word => .str word

/-- The value of a word, if the scalar takes it. -/
def convert? (s : Scalar) (word : String) : Option Value :=
  if s.accepts word then some (s.value word) else none

/-- The name, or the word of a switch. -/
def name : Scalar → String
  | .int name | .float name | .str name | .switch name => name

/-- The kind of a scalar: its type, or the word of a switch. -/
def describe : Scalar → String
  | .int _ => "int"
  | .float _ => "float"
  | .str _ => "str"
  | .switch word => "switch<" ++ word ++ ">"

/-- How a signature shows a scalar. -/
def display : Scalar → String
  | .switch word => word
  | s => "<" ++ s.name ++ ": " ++ s.describe ++ ">"

/-- The type of the values that a scalar makes. -/
def valueType : Scalar → ValueType
  | .int _ => .int
  | .float _ => .float
  | .str _ | .switch _ => .str

/-- The rank of a scalar: the fewer words of its kind there are, the higher. -/
def priority : Scalar → Nat
  | .str _ => 0
  | .float _ => 1
  | .int _ => 2
  | .switch _ => 3

/-- All that a scalar is made of. -/
def inspect : Scalar → String
  | .int name => "Integer \x7b name: " ++ Text.quoted name ++ " \x7d"
  | .float name => "Float \x7b name: " ++ Text.quoted name ++ " \x7d"
  | .str name => "String \x7b name: " ++ Text.quoted name ++ " \x7d"
  | .switch word => "Switch \x7b keyword: " ++ Text.quoted word ++ " \x7d"

end Scalar

/-! ## Parameters -/

namespace Param

/-- The name of a scalar, the end word of an array. -/
def name : Param → String
  | .scalar s => s.name
  | .array endWord _ => endWord

/-- The kind of a parameter. -/
def describe : Param → String
  | .scalar s => s.describe
  | .array _ element => "array<" ++ element.describe ++ ">"

/-- How a signature shows a parameter. -/
def display : Param → String
  | .scalar s => s.display
  | .array endWord element => element.display ++ "... " ++ endWord

/-- The type of the values that a parameter makes. -/
def valueType : Param → ValueType
  | .scalar s => s.valueType
  | .array _ element => .list element.valueType

/-- The rank of a parameter among unlike ones; arrays come before all scalars. -/
def priority : Param → Nat
  | .scalar s => s.priority
  | .array _ _ => 4

/-- Whether two parameters are of the same kind. -/
def alike (p q : Param) : Bool := p.describe == q.describe

/-- All that a parameter is made of. -/
def inspect : Param → String
  | .scalar s => s.inspect
  | .array endWord element =>
    "Array \x7b end_word: " ++ Text.quoted endWord ++ ", element: " ++ element.inspect ++ " \x7d"

end Param

end CommandShell
