/-!
# Types of values

Every value has one of three scalar types or the type of lists of some type. A type is written the
way signatures and messages show it: `int`, `float`, `str`, and `list<…>` around the element type.
-/

namespace CommandShell

/-- The type of a value. -/
inductive ValueType where
  | int
  | float
  | str
  | list (element : ValueType)
deriving DecidableEq, Repr

namespace ValueType

/-- The element type of a list type. -/
def element? : ValueType → Option ValueType
  | .list element => some element
  | _ => none

/-- Whether a type is not a list type. -/
def isScalar (t : ValueType) : Bool := t.element?.isNone

/-- The written form of a type. -/
def text : ValueType → String
  | .int => "int"
  | .float => "float"
  | .str => "str"
  | .list element => "list<" ++ element.text ++ ">"

end ValueType

end CommandShell
