import CommandShell.Note
import CommandShell.Text.Plain

/-!
# Notes on a standard error that is no terminal

How the executable writes a note: on a line of its own, behind the time, the level and the part of
the shell that the note comes from, and as plain text, whatever the note is about. The program
itself leaves open how a note looks.
-/

namespace CommandShell.Note

/-- A text with all its lines but the first set in by four columns. -/
def setIn (text : String) : String :=
  String.ofList (text.toList.flatMap fun c => if c = '\n' then "\n    ".toList else [c])

/-- The level's name in five columns, the origin and the wording, after the time of the note. What
the note is about can bring line breaks into the wording, so it is set in. -/
def line (time : String) (n : Note) : String :=
  let padding := String.ofList (List.replicate (5 - n.level.name.length) ' ')
  "[" ++ time ++ " " ++ n.level.name ++ padding ++ " " ++ n.origin.path ++ "] " ++ setIn n.text

/-- The name of a script can hold a line break. -/
example : (Note.runningScript "a\nb").line "0" =
    "[0 INFO  keyline_runtime::repl] running script a\n    b" := by decide

/-- A note as it is written. -/
def written (time : String) (n : Note) : String := Text.plain (n.line time ++ "\n")

end CommandShell.Note
