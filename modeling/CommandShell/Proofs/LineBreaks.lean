import CommandShell.Console.Line
import CommandShell.Text.Lines

/-!
# Line breaks and words

A text that is written line by line, each line with a line feed after it, is read back as those
lines. All that can get lost is one carriage return at the end of a line, which then counts as a
part of the line break. As a carriage return is white space, the words of the line do not notice,
and neither does the line once it is trimmed.

Main results:

* `lines_ofLines`: what is read back;
* `words_chomp`, `trim_chomp`: what a lost carriage return leaves alone;
* `words_eq_nil_iff`: a blank line is one without words.
-/

namespace CommandShell.Text

/-! ## White space at the end -/

section Blank

variable {c : Char} (h : isBlank c = true) (cs : List Char)

include h

theorem cut_concat_of_isBlank : cut (cs ++ [c]) = cut cs := by
  induction cs with
  | nil => simp [cut, h, consWord]
  | cons d cs ih => simp only [List.cons_append, cut, ih]

theorem wordsOf_concat_of_isBlank : wordsOf (cs ++ [c]) = wordsOf cs := by
  rw [wordsOf, cut_concat_of_isBlank h, wordsOf]

/-- White space at the end is trimmed. -/
theorem trimChars_concat_of_isBlank : trimChars (cs ++ [c]) = trimChars cs := by
  unfold trimChars
  rw [List.dropWhile_append]
  -- either there is nothing but white space, or the rest is trimmed from its end
  split
  · next hblank =>
    rw [List.isEmpty_iff.mp hblank, List.dropWhile_cons_of_pos h]
    rfl
  · rw [List.reverse_append, List.reverse_singleton, List.singleton_append,
      List.dropWhile_cons_of_pos h]

end Blank

/-- There is no word exactly if all is white space. -/
theorem wordsOf_eq_nil_iff {cs : List Char} : wordsOf cs = [] ↔ cs.all isBlank = true := by
  induction cs with
  | nil => simp
  | cons c cs ih =>
    cases hc : isBlank c with
    | true => rw [words_cons_of_isBlank hc, ih, List.all_cons, hc, Bool.true_and]
    | false => simp [words_cons_of_not_isBlank hc, hc]

/-- **A line is blank if and only if it has no words.** -/
theorem words_eq_nil_iff {line : String} : words line = [] ↔ isBlankLine line = true := by
  rw [words, List.map_eq_nil_iff, wordsOf_eq_nil_iff, isBlankLine]

/-! ## Lines without their carriage return -/

/-- Characters without a carriage return at their end. -/
def chompChars (cs : List Char) : List Char :=
  if cs.getLast? == some '\r' then cs.dropLast else cs

/-- A line without a carriage return at its end. -/
def chomp (line : String) : String := String.ofList (chompChars line.toList)

/-- Either a carriage return was lost, or nothing was. -/
theorem chompChars_cases (cs : List Char) :
    chompChars cs = cs ∨ ∃ front, cs = front ++ ['\r'] ∧ chompChars cs = front := by
  unfold chompChars
  split
  · next hlast =>
    obtain ⟨front, rfl⟩ := List.getLast?_eq_some_iff.mp (beq_iff_eq.mp hlast)
    exact .inr ⟨front, rfl, List.dropLast_concat⟩
  · exact .inl rfl

theorem wordsOf_chompChars (cs : List Char) : wordsOf (chompChars cs) = wordsOf cs := by
  rcases chompChars_cases cs with hsame | ⟨front, rfl, hfront⟩
  · rw [hsame]
  · rw [hfront, wordsOf_concat_of_isBlank (by decide)]

theorem trimChars_chompChars (cs : List Char) : trimChars (chompChars cs) = trimChars cs := by
  rcases chompChars_cases cs with hsame | ⟨front, rfl, hfront⟩
  · rw [hsame]
  · rw [hfront, trimChars_concat_of_isBlank (by decide)]

theorem words_chomp (line : String) : words (chomp line) = words line := by
  rw [words, chomp, String.toList_ofList, wordsOf_chompChars, words]

theorem trim_chomp (line : String) : trim (chomp line) = trim line := by
  rw [trim, chomp, String.toList_ofList, trimChars_chompChars, trim]

/-! ## Texts made of lines -/

/-- The text of some lines, each with a line feed after it. -/
def ofLines (lines : List String) : String := String.join (lines.map fun line => line ++ "\n")

/-- What has no line feed and stands before one is the first piece. -/
theorem Piece.split_append_of_not_mem {α : Type} [DecidableEq α] {feed : α} {as : List α}
    (h : feed ∉ as) (rest : List α) :
    Piece.split feed (as ++ feed :: rest) = ⟨as, true⟩ :: Piece.split feed rest := by
  induction as with
  | nil => simp [split]
  | cons a as ih =>
    rw [List.mem_cons, not_or] at h
    rw [List.cons_append, split, if_neg (Ne.symm h.1), ih h.2]
    rfl

/-- **The lines of a text made of lines** are these lines, but for a carriage return at the end of
each. -/
theorem lines_ofLines {ls : List String} (h : ∀ line ∈ ls, '\n' ∉ line.toList) :
    lines (ofLines ls) = ls.map chomp := by
  unfold lines
  -- along the lines, of which each is the first piece of what is left
  induction ls with
  | nil => rfl
  | cons line ls ih =>
    obtain ⟨hline, hls⟩ := List.forall_mem_cons.mp h
    have htext : (ofLines (line :: ls)).toList = line.toList ++ '\n' :: (ofLines ls).toList := by
      simp [ofLines, String.join_cons]
    rw [htext, Piece.split_append_of_not_mem hline, List.map_cons, ih hls, List.map_cons]
    simp [Piece.line, chomp, chompChars]

end CommandShell.Text

namespace CommandShell.Request

/-! ## Lines that leave -/

/-- A line leaves the console. -/
def Leaves (line : String) : Prop := Text.words line = ["exit"] ∨ Text.words line = ["quit"]

instance (line : String) : Decidable (Leaves line) := by unfold Leaves; infer_instance

/-- A line leaves the console if its only word is one of two. -/
theorem ofLine_eq_leave_iff {line : String} : ofLine line = .leave ↔ Leaves line := by
  unfold ofLine Leaves
  generalize Text.words line = tokens
  fun_cases ofTokens tokens with
  | case2 first rest hcomment =>
    -- a comment sign begins neither of the two words
    have hexit : first ≠ "exit" := by rintro rfl; exact absurd hcomment (by decide)
    have hquit : first ≠ "quit" := by rintro rfl; exact absurd hcomment (by decide)
    simp [hexit, hquit]
  | _ => simp_all

end CommandShell.Request
