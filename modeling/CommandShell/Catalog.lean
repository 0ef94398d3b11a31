import CommandShell.Command

/-!
# The catalog of commands

All commands that a shell knows, in the order of their registration. Commands are only ever added,
at the end. Every view of the catalog is read off this one list, so the views cannot drift apart.
-/

namespace CommandShell

/-- The known commands in the order of their registration. -/
structure Catalog where
  commands : List Command

namespace Catalog

/-- The catalog without commands. -/
def empty : Catalog := ⟨[]⟩

/-- The catalog with one more command. Commands that look the same are kept apart. -/
def register (catalog : Catalog) (command : Command) : Catalog :=
  ⟨catalog.commands ++ [command]⟩

/-- The commands that answer to a keyword. -/
def overloads (catalog : Catalog) (keyword : String) : List Command :=
  catalog.commands.filter fun c => c.keyword == keyword

/-- Whether some command answers to a keyword. -/
def knows (catalog : Catalog) (keyword : String) : Bool :=
  catalog.commands.any fun c => c.keyword == keyword

/-- The keywords of a list of commands after those that are listed already. -/
def collectKeywords (listed : List String) (commands : List Command) : List String :=
  commands.foldl (fun ks c => if c.keyword ∈ ks then ks else ks ++ [c.keyword]) listed

/-- The keywords, each where it was registered first. -/
def keywords (catalog : Catalog) : List String := collectKeywords [] catalog.commands

/-- The signatures of the commands that answer to a keyword. -/
def usage (catalog : Catalog) (keyword : String) : List String :=
  (catalog.overloads keyword).map Command.signature

/-- The signatures of all commands. -/
def signatures (catalog : Catalog) : List String := catalog.commands.map Command.signature

/-- How many commands there are. -/
def size (catalog : Catalog) : Nat := catalog.commands.length

/-- Whether there is no command. -/
def isEmpty (catalog : Catalog) : Bool := catalog.commands.isEmpty

/-! ## Registration seen through the views -/

@[simp] theorem commands_register (catalog : Catalog) (c : Command) :
    (catalog.register c).commands = catalog.commands ++ [c] := rfl

theorem overloads_register (catalog : Catalog) (c : Command) (keyword : String) :
    (catalog.register c).overloads keyword =
      catalog.overloads keyword ++ if c.keyword == keyword then [c] else [] := by
  by_cases h : c.keyword = keyword <;> simp [overloads, h]

theorem keywords_register (catalog : Catalog) (c : Command) :
    (catalog.register c).keywords =
      if c.keyword ∈ catalog.keywords then catalog.keywords
      else catalog.keywords ++ [c.keyword] := by
  unfold keywords collectKeywords
  rw [commands_register, List.foldl_append]
  rfl

end Catalog

end CommandShell
