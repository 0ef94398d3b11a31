import CommandShell.Param.Basic
import CommandShell.Fault

/-!
# Reading arguments

A parameter reads its argument from a place in a row of words. It never looks back and never tries
again: a scalar takes the word at hand, an array takes the end word if it is at hand and one more
element if it is not.

There are two ways to ask. `reach?` says how far the argument would extend, or that there is none.
`read` gives its value as well, and a fault when there is none; the fault names the whole parameter
and the place where reading began, also when an element inside an array is what fails.

Main definitions:

* `Cursor`: a place in a row of words;
* `Param.reach?` and `Param.accepts`;
* `Param.read` and `Param.readAt`.
-/

namespace CommandShell

/-- A place in a row of words: its position, and the words from there on. -/
structure Cursor where
  position : Nat
  rest : List String
deriving DecidableEq, Repr

namespace Cursor

/-- A position in a row of words. Beyond the end there are no words. -/
def ofTokens (tokens : List String) (position : Nat) : Cursor := ⟨position, tokens.drop position⟩

/-- The word at hand and the place after it. -/
def next? : Cursor → Option (String × Cursor)
  | ⟨_, []⟩ => none
  | ⟨position, word :: rest⟩ => some (word, ⟨position + 1, rest⟩)

end Cursor

namespace Param

/-! ## How far an argument extends -/

/-- The place after the end word of an array, when `element` says where one element ends. Every
element takes at least one word, so as many steps as there are words are room enough. -/
def reachItems (endWord : String) (element : Cursor → Option Cursor) : Nat → Cursor → Option Cursor
  | 0, _ => none
  | room + 1, c =>
    match c.next? with
    | none => none
    | some (word, next) =>
      if word = endWord then some next else (element c).bind (reachItems endWord element room)

/-- The place after the argument that begins at a place, if there is one. -/
def reach? : Param → Cursor → Option Cursor
  | .scalar s, c =>
    match c.next? with
    | none => none
    | some (word, next) => if s.accepts word then some next else none
  | .array endWord element, c => reachItems endWord element.reach? c.rest.length c

/-- Whether an argument begins at a position. -/
def accepts (p : Param) (tokens : List String) (position : Nat) : Bool :=
  (p.reach? (Cursor.ofTokens tokens position)).isSome

/-! ## What an argument becomes -/

/-- The fault of a parameter that finds no argument at a position. -/
def violation (p : Param) (position : Nat) : Fault :=
  .of (.contractViolation p.display position)

/-- The items of an array, after those that have been read. Before an element is read it is asked
for, so that the fault is the array's own. -/
def readItems (fault : Fault) (endWord : String) (accepts : Cursor → Bool)
    (element : Cursor → Except Fault (Value × Cursor)) :
    Nat → List Value → Cursor → Except Fault (List Value × Cursor)
  | 0, _, _ => .error fault
  | room + 1, items, c =>
    match c.next? with
    | none => .error fault
    | some (word, next) =>
      if word = endWord then .ok (items, next)
      else if accepts c then
        match element c with
        | .error inner => .error inner
        | .ok (item, after) =>
          readItems fault endWord accepts element room (items ++ [item]) after
      else .error fault

/-- The value of the argument that begins at a place, and the place after it. -/
def read : Param → Cursor → Except Fault (Value × Cursor)
  | .scalar s, c =>
    let fault := violation (.scalar s) c.position
    match c.next? with
    | none => .error fault
    | some (word, next) =>
      match s.convert? word with
      | none => .error fault
      | some value => .ok (value, next)
  | .array endWord element, c =>
    let fault := violation (.array endWord element) c.position
    match readItems fault endWord (fun c => (element.reach? c).isSome) element.read
        c.rest.length [] c with
    | .error fault => .error fault
    | .ok (items, next) => .ok (.list items, next)

/-- The value of the argument that begins at a position, and the position after it. -/
def readAt (p : Param) (tokens : List String) (position : Nat) : Except Fault (Value × Nat) :=
  match p.read (Cursor.ofTokens tokens position) with
  | .error fault => .error fault
  | .ok (value, next) => .ok (value, next.position)

/-- An array of arrays: the inner end word closes the element, the outer one the argument. -/
example :
    (array "all" (array "end" (scalar (.int "n")))).readAt ["1", "2", "end", "end", "all"] 0 =
      .ok (.list [.list [.int 1, .int 2], .list []], 5) := by rfl

end Param

end CommandShell
