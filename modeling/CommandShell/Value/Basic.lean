import CommandShell.Value.Kind
import CommandShell.Number.Binary64

/-!
# Values

What the words of a line become when a command takes them as arguments: an integer, a
double-precision number, a text, or a list of values. Numbers are equal when their bit patterns
are, so equality of values is plain equality and can be decided.

Main definitions:

* `Value.type`: the type of a value, which for a list is read off its first element;
* `Value.marks`: what a hash of the value is computed from.
-/

namespace CommandShell

/-- A converted argument. -/
inductive Value where
  | int (n : Int64)
  | float (x : Binary64)
  | str (text : String)
  | list (items : List Value)
deriving Repr

namespace Value

/-! ## Equality -/

mutual

/-- Whether two values are the same. -/
def same : Value → Value → Bool
  | .int m, .int n => m == n
  | .float x, .float y => decide (x = y)
  | .str s, .str t => s == t
  | .list vs, .list ws => sameItems vs ws
  | _, _ => false

/-- Whether two lists hold the same values in the same order. -/
def sameItems : List Value → List Value → Bool
  | [], [] => true
  | v :: vs, w :: ws => same v w && sameItems vs ws
  | _, _ => false

end

mutual

theorem same_self : (v : Value) → same v v = true
  | .int _ => by simp [same]
  | .float _ => by simp [same]
  | .str _ => by simp [same]
  | .list vs => by simp [same, sameItems_self vs]

theorem sameItems_self : (vs : List Value) → sameItems vs vs = true
  | [] => rfl
  | v :: vs => by simp [sameItems, same_self v, sameItems_self vs]

end

mutual

theorem eq_of_same : (v w : Value) → same v w = true → v = w
  | .int _, w, h => by cases w <;> simp_all [same]
  | .float _, w, h => by cases w <;> simp_all [same]
  | .str _, w, h => by cases w <;> simp_all [same]
  | .list vs, w, h => by
    cases w with
    | list ws => rw [eq_of_sameItems vs ws (by simpa [same] using h)]
    | _ => simp [same] at h

theorem eq_of_sameItems : (vs ws : List Value) → sameItems vs ws = true → vs = ws
  | [], ws, h => by cases ws <;> simp_all [sameItems]
  | v :: vs, ws, h => by
    cases ws with
    | nil => simp [sameItems] at h
    | cons w ws =>
      rw [sameItems, Bool.and_eq_true] at h
      rw [eq_of_same v w h.1, eq_of_sameItems vs ws h.2]

end

theorem same_iff {v w : Value} : same v w = true ↔ v = w :=
  ⟨eq_of_same v w, fun h => h ▸ same_self v⟩

instance : DecidableEq Value := fun _ _ => decidable_of_iff _ same_iff

/-! ## Types and parts -/

/-- The type of a value. An empty list has no element to go by and counts as a list of texts. -/
def type : Value → ValueType
  | .int _ => .int
  | .float _ => .float
  | .str _ => .str
  | .list [] => .list .str
  | .list (v :: _) => .list v.type

/-- The integer, if the value is one. -/
def int? : Value → Option Int64
  | .int n => some n
  | _ => none

/-- The double-precision number, if the value is one. -/
def float? : Value → Option Binary64
  | .float x => some x
  | _ => none

/-- The value as a double-precision number: an integer becomes the nearest one. -/
def number? : Value → Option Binary64
  | .int n => some (.ofInt n.toInt)
  | .float x => some x
  | _ => none

/-- The text, if the value is one. -/
def str? : Value → Option String
  | .str text => some text
  | _ => none

/-- The items, if the value is a list. -/
def list? : Value → Option (List Value)
  | .list items => some items
  | _ => none

/-! ## Marks -/

/-- One step of the walk through a value. -/
inductive Mark where
  | int (n : Int64)
  | float (x : Binary64)
  | str (text : String)
  | list
deriving DecidableEq, Repr

mutual

/-- The walk through a value, each list before its items. It does not say where a list ends, so
different values may have the same marks; equal values always have. -/
def marks : Value → List Mark
  | .int n => [.int n]
  | .float x => [.float x]
  | .str text => [.str text]
  | .list items => .list :: marksOfItems items

/-- The walk through the items of a list. -/
def marksOfItems : List Value → List Mark
  | [] => []
  | v :: vs => v.marks ++ marksOfItems vs

end

/-- The marks of `[[1 2]]` and of `[[1] 2]` are the same. -/
example : (list [list [int 1, int 2]]).marks = (list [list [int 1], int 2]).marks := by decide

end Value

end CommandShell
