import CommandShell.Session.Basic
import CommandShell.Value.Printer

/-!
# Demo commands

A few overloaded commands that show every kind of parameter: numbers beside texts, an array of
numbers, switches that lead to different commands, and a switch beside a text that also fits.

What a demo command prints is a phrase, a row of fixed texts and of arguments by their position. A
phrase that asks for an argument that is not there prints nothing.
-/

namespace CommandShell.Demo

/-- A part of a phrase. -/
inductive Piece where
  | text (text : String)
  /-- The argument at a position. -/
  | argument (index : Nat)
  /-- The sum of the numbers in the argument at a position. -/
  | sum (index : Nat)
deriving DecidableEq, Repr

/-- The sum of the numbers in a list, from left to right. The sum of none is negative zero, which
changes no number that is added to it; what is no list has the sum zero. -/
def total (v : Value) : Binary64 :=
  match v.list? with
  | none => .ofInt 0
  | some items => (items.filterMap Value.number?).foldl (· + ·) .negZero

/-- The text of a part of a phrase. -/
def Piece.render? (args : List Value) : Piece → Option String
  | .text content => some content
  | .argument index => args[index]?.map Value.display
  | .sum index => args[index]?.map fun v => (total v).write .plain

/-- The text of a phrase, if it has all its arguments. -/
def render? (args : List Value) (phrase : List Piece) : Option String :=
  (phrase.mapM (Piece.render? args)).map String.join

/-- A demo command: its keyword, its parameters and its phrase. -/
structure Entry where
  keyword : String
  params : List Param
  phrase : List Piece

/-- The command prints its phrase on a line. -/
def Entry.command (e : Entry) : Command where
  keyword := e.keyword
  params := e.params
  action args := (render? args e.phrase).toList.map fun text => .print (text ++ "\n")

/-- A parameter for a 64-bit integer. -/
def int (name : String) : Param := .scalar (.int name)

/-- A parameter for any word. -/
def str (name : String) : Param := .scalar (.str name)

/-- A fixed word. -/
def switch (word : String) : Param := .scalar (.switch word)

/-- The demo commands. -/
def entries : List Entry :=
  [⟨"give", [int "amount"], [.text "You receive ", .argument 0, .text " coin(s)."]⟩,
   ⟨"give", [str "item", int "amount"],
    [.text "You receive ", .argument 1, .text " x ", .argument 0, .text "."]⟩,
   ⟨"echo", [str "text"], [.argument 0]⟩,
   ⟨"sum", [.array "end" (.scalar (.float "n"))], [.sum 0]⟩,
   ⟨"scoreboard", [switch "objectives", switch "add", str "name"],
    [.text "Added objective ", .argument 2, .text "."]⟩,
   ⟨"scoreboard", [switch "players", switch "add", str "player", int "points"],
    [.text "Gave ", .argument 3, .text " point(s) to ", .argument 2, .text "."]⟩,
   ⟨"tp", [switch "home"], [.text "Teleported home."]⟩,
   ⟨"tp", [str "place"], [.text "Teleported to ", .argument 0, .text "."]⟩]

/-- Registers the demo commands. -/
def register (s : Session) : Session := entries.foldl (fun s e => s.register e.command) s

end CommandShell.Demo
