import CommandShell.Value.Basic
import CommandShell.Number.Notation
import CommandShell.Text.Quoted

/-!
# Printing values

A value is printed in one of two styles. For readers, a text stands for itself and the items of a
list have spaces between them; to be inspected, a text is quoted, a number shows that it may have a
fraction, and the items have commas between them.
-/

namespace CommandShell

namespace Value

/-- What the printed forms of a value have to agree on. -/
structure Style where
  layout : Layout
  text : String → String
  separator : String

/-- The style for readers. -/
def Style.reading : Style := ⟨.plain, id, " "⟩

/-- The style that shows exactly which value it is. -/
def Style.inspecting : Style := ⟨.exact, Text.quoted, ", "⟩

mutual

/-- A value in a given style. -/
def print (style : Style) : Value → String
  | .int n => toString n.toInt
  | .float x => x.write style.layout
  | .str text => style.text text
  | .list items => "[" ++ style.separator.intercalate (printItems style items) ++ "]"

/-- The items of a list in a given style. -/
def printItems (style : Style) : List Value → List String
  | [] => []
  | v :: vs => v.print style :: printItems style vs

end

/-- The value for readers. -/
def display (v : Value) : String := v.print .reading

/-- The value for inspection. -/
def inspect (v : Value) : String := v.print .inspecting

example : (list [str "a b", list [int (-3)]]).display = "[a b [-3]]" ∧
    (list [str "a b", list [int (-3)]]).inspect = "[\"a b\", [-3]]" := by decide +kernel

end Value

end CommandShell
