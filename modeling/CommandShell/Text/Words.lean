import CommandShell.Text.Blank

/-!
# Words

A line of input is a sequence of words, the maximal runs of characters that are no white space.
There is no quoting and no escaping: a word holds exactly the characters that were typed.

The cut is one pass over the characters. `cut` gives the word that the text begins with, which is
empty when the text begins with white space or not at all, and the words after it.

Main results:

* `words_cons_of_isBlank`: white space in front of a text changes nothing;
* `words_cons_of_not_isBlank`: any other character extends the word that it touches.
-/

namespace CommandShell.Text

/-! ## Cutting characters -/

/-- Puts a word in front of others, if it has any character. -/
def consWord (word : List Char) (rest : List (List Char)) : List (List Char) :=
  if word.isEmpty then rest else word :: rest

/-- The word at the very beginning of a text, possibly empty, and the words after it. -/
def cut : List Char → List Char × List (List Char)
  | [] => ([], [])
  | c :: cs =>
    if isBlank c then ([], consWord (cut cs).1 (cut cs).2)
    else (c :: (cut cs).1, (cut cs).2)

/-- The words of a text, in order. -/
def wordsOf (cs : List Char) : List (List Char) := consWord (cut cs).1 (cut cs).2

/-- The words of a line, in order. -/
def words (line : String) : List String := (wordsOf line.toList).map String.ofList

/-! ## Laws of the cut -/

@[simp] theorem wordsOf_nil : wordsOf [] = [] := rfl

theorem words_cons_of_isBlank {c : Char} (h : isBlank c = true) (cs : List Char) :
    wordsOf (c :: cs) = wordsOf cs := by
  simp [wordsOf, cut, h, consWord]

theorem words_cons_of_not_isBlank {c : Char} (h : isBlank c = false) (cs : List Char) :
    wordsOf (c :: cs) = (c :: (cut cs).1) :: (cut cs).2 := by
  simp [wordsOf, cut, h, consWord]

end CommandShell.Text
