import CommandShell.Console.Dialogue
import CommandShell.Proofs.Completion

/-!
# Words and the white space around them

A line is cut into words in one pass that never looks ahead. What it has to find can be said without
any pass: words stand in the line one after the other, white space stands between each word and the
next, and there may be more of it at both ends. `Text.Spaced` says just this, and the words that are
cut out of a line are the only ones for which it is true. So the cut loses nothing but white space,
it never makes a word out of two or two out of one, and words that are written with blanks between
them are found again. It does not matter which of the characters of the class the white space is
made of, or how long it is.

A line without words is the same as a line of which nothing is left when it is trimmed. A dialogue
passes over such a line before anybody cuts it into words, and the words, if they were asked, would
say the same.

Main definitions:

* `Text.IsWord`: what can be a word at all;
* `Text.Spaced`: a line is made of some words and white space.

Main results:

* `Text.Spaced.words_eq` / `Text.spaced_words`: the words that make up a line are those that are cut
  out of it;
* `Text.Spaced.join_eq`: put together, the words are the line without its white space;
* `Text.spaced_intercalate`: words with blanks between them;
* `Text.trim_eq_empty_iff`: when nothing is left of a line;
* `Text.words_are_spaced`: all of it for any line.
-/

namespace CommandShell

namespace Text

/-! ## Lines made of words -/

/-- A word has characters, and none of them is white space. -/
structure IsWord (word : String) : Prop where
  ne_empty : word ≠ ""
  unbroken : ∀ c ∈ word.toList, isBlank c = false

/-- A line is made of some words: they stand in it in their order. Before each of them there may be
white space, and behind it there is some at least if another word comes. -/
inductive Spaced : List String → String → Prop where
  | blank {line : String} (blank : isBlankLine line = true) : Spaced [] line
  | word {leading word gap rest : String} {others : List String}
      (leading_blank : isBlankLine leading = true) (isWord : IsWord word)
      (gap_blank : isBlankLine gap = true) (apart : others ≠ [] → gap ≠ "")
      (onward : Spaced others rest) : Spaced (word :: others) (leading ++ word ++ gap ++ rest)

variable {line word leading gap rest : String} {ws : List String} {cs : List Char}

theorem isBlankLine_append (front back : String) :
    isBlankLine (front ++ back) = (isBlankLine front && isBlankLine back) := by
  rw [isBlankLine, String.toList_append, List.all_append]
  rfl

/-- All that a line is made of between white space are words. -/
theorem Spaced.isWord_of_mem (h : Spaced ws line) (hword : word ∈ ws) : IsWord word := by
  induction h with
  | blank _ => simp at hword
  | word _ hfirst _ _ _ ih =>
    rcases List.mem_cons.mp hword with rfl | hothers
    · exact hfirst
    · exact ih hothers

/-! ## The words of a line that is made of words -/

/-- A text that is empty or begins with white space leaves the word before it alone. -/
theorem wordsOf_append_of_opens_blank {word tail : List Char} (hne : word ≠ [])
    (hword : ∀ c ∈ word, isBlank c = false) (htail : ∀ c ∈ tail.head?, isBlank c = true) :
    wordsOf (word ++ tail) = word :: wordsOf tail := by
  have hcut : cut tail = ([], wordsOf tail) := by
    cases tail with
    | nil => rfl
    | cons c cs =>
      have hc : isBlank c = true := htail c rfl
      rw [words_cons_of_isBlank hc, cut, if_pos hc, wordsOf]
  rw [wordsOf, cut_append_of_unbroken hword, hcut, List.append_nil, consWord,
    if_neg (by simpa using hne)]

/-- **The first word is cut out** if white space comes behind it, or nothing else. -/
theorem words_append_of_apart (hleading : isBlankLine leading = true) (hword : IsWord word)
    (hgap : isBlankLine gap = true) (hapart : gap ≠ "" ∨ isBlankLine rest = true) :
    words (leading ++ word ++ gap ++ rest) = word :: words rest := by
  have hne : word.toList ≠ [] := fun hnil => hword.ne_empty (String.toList_eq_nil_iff.mp hnil)
  have hopens : ∀ c ∈ (gap.toList ++ rest.toList).head?, isBlank c = true := by
    intro c hc
    rcases hapart with hsome | hblank
    · -- the white space behind the word begins with some
      have hgapne : gap.toList ≠ [] := fun hnil => hsome (String.toList_eq_nil_iff.mp hnil)
      rw [List.head?_append_of_ne_nil _ hgapne] at hc
      exact List.all_eq_true.mp hgap c (List.mem_of_mem_head? hc)
    · -- all that comes is white space
      have hall : isBlankLine (gap ++ rest) = true := by rw [isBlankLine_append, hgap, hblank]; rfl
      rw [isBlankLine, String.toList_append] at hall
      exact List.all_eq_true.mp hall c (List.mem_of_mem_head? hc)
  rw [String.append_assoc, String.append_assoc, words_append_of_isBlankLine hleading, words,
    String.toList_append, String.toList_append,
    wordsOf_append_of_opens_blank hne hword.unbroken hopens, wordsOf_append_of_all_isBlank hgap,
    List.map_cons, String.ofList_toList, words]

/-- **The words that make up a line are cut out of it.** -/
theorem Spaced.words_eq (h : Spaced ws line) : words line = ws := by
  -- along the words: the first one is cut out, and the rest is a line made of the others
  induction h with
  | blank hblank => exact words_eq_nil_iff.mpr hblank
  | @word leading word gap rest others hleading hword hgap hapart _ ih =>
    -- no word comes behind this one, or one that is set apart from it
    have hrest : gap ≠ "" ∨ isBlankLine rest = true := by
      by_cases hothers : others = []
      · right
        rw [← words_eq_nil_iff, ih, hothers]
      · exact .inl (hapart hothers)
    rw [words_append_of_apart hleading hword hgap hrest, ih]

/-! ## Every line is made of its words -/

/-- **A text is all white space, or it has a first word**, with white space behind it unless nothing
comes there. -/
theorem exists_first_word (cs : List Char) :
    cs.all isBlank = true ∨ ∃ leading word gap rest : String,
      String.ofList cs = leading ++ word ++ gap ++ rest ∧ isBlankLine leading = true ∧
      IsWord word ∧ isBlankLine gap = true ∧ (gap = "" → rest = "") := by
  -- along the characters, up to the first one that is no white space
  induction cs with
  | nil => exact .inl rfl
  | cons c cs ih =>
    cases hc : isBlank c with
    | true =>
      rcases ih with hall | ⟨leading, word, gap, rest, hline, hleading, hrest⟩
      · exact .inl (by rw [List.all_cons, hc, hall]; rfl)
      · -- one more white space in front
        refine .inr ⟨String.ofList [c] ++ leading, word, gap, rest, ?_, ?_, hrest⟩
        · rw [← List.singleton_append, String.ofList_append, hline]
          simp only [String.append_assoc]
        · rw [isBlankLine_append, hleading, isBlankLine, String.toList_ofList, List.all_cons, hc]
          rfl
    | false =>
      -- the word goes up to the next white space, and that up to what is none
      set tail := cs.dropWhile fun d => !isBlank d with htail
      refine .inr ⟨"", String.ofList (c :: cs.takeWhile fun d => !isBlank d),
        String.ofList (tail.takeWhile isBlank), String.ofList (tail.dropWhile isBlank),
        ?_, rfl, ⟨by simp, ?_⟩, ?_, ?_⟩
      · rw [← String.toList_inj]
        simp [htail]
      · rw [String.toList_ofList, List.forall_mem_cons]
        refine ⟨hc, fun d hd => ?_⟩
        simpa using List.mem_takeWhile_imp hd
      · rw [isBlankLine, String.toList_ofList, List.all_eq_true]
        exact fun d hd => List.mem_takeWhile_imp hd
      · intro hgap
        have hstop := List.head?_dropWhile_not (fun d => !isBlank d) cs
        rw [← htail] at hstop
        cases htailEq : tail with
        | nil => rfl
        | cons d ds =>
          -- what is left begins with white space, so the gap is not empty
          rw [htailEq] at hstop hgap
          have hd : isBlank d = true := by simpa using hstop
          simp [hd] at hgap

/-- **Every line is made of its words.** -/
theorem spaced_words (line : String) : Spaced (words line) line := by
  -- induction on the length: the first word is taken off with the white space around it
  induction hlength : line.length using Nat.strong_induction_on generalizing line with
  | _ n ih =>
    have hfirst := exists_first_word line.toList
    rw [String.ofList_toList] at hfirst
    rcases hfirst with hblank | ⟨leading, word, gap, rest, rfl, hleading, hword, hgap, hend⟩
    · rw [words_eq_nil_iff.mpr hblank]
      exact .blank hblank
    · have hapart : gap ≠ "" ∨ isBlankLine rest = true := by
        by_cases hempty : gap = ""
        · exact .inr (by rw [hend hempty]; rfl)
        · exact .inl hempty
      have hshorter : rest.length < n := by
        have hpos : 0 < word.length :=
          Nat.pos_of_ne_zero fun hzero => hword.ne_empty (String.length_eq_zero_iff.mp hzero)
        rw [← hlength]
        simp only [String.length_append]
        omega
      rw [words_append_of_apart hleading hword hgap hapart]
      refine .word hleading hword hgap (fun hothers hempty => hothers ?_) (ih _ hshorter rest rfl)
      -- without white space behind it the word is the last one
      rw [hend hempty]
      rfl

/-! ## What is left without white space -/

/-- Nothing is left of a blank line without its white space. -/
theorem filter_eq_nil_of_isBlankLine (h : isBlankLine line = true) :
    line.toList.filter (fun c => !isBlank c) = [] := by
  rw [List.filter_eq_nil_iff]
  intro c hc
  simp [List.all_eq_true.mp h c hc]

/-- **Put together, the words of a line are the line without its white space.** -/
theorem Spaced.join_eq (h : Spaced ws line) :
    String.join ws = String.ofList (line.toList.filter fun c => !isBlank c) := by
  induction h with
  | blank hblank =>
    rw [filter_eq_nil_of_isBlankLine hblank]
    rfl
  | word hleading hword hgap _ _ ih =>
    -- of the four parts only the word and what comes behind it leave anything
    have hself := List.filter_eq_self.mpr fun c hc => by
      show (!isBlank c) = true
      rw [hword.unbroken c hc]
      rfl
    simp only [String.toList_append, List.filter_append, filter_eq_nil_of_isBlankLine hleading,
      filter_eq_nil_of_isBlankLine hgap, hself, List.nil_append, List.append_nil,
      String.ofList_append, String.ofList_toList, String.join_cons, ih]

/-! ## Words with blanks between them -/

/-- Words with a blank between each and the next make up a line. -/
theorem spaced_intercalate (h : ∀ word ∈ ws, IsWord word) : Spaced ws (" ".intercalate ws) := by
  -- along the words, with a blank before each but the first
  induction ws with
  | nil => exact .blank rfl
  | cons word others ih =>
    obtain ⟨hword, hothers⟩ := List.forall_mem_cons.mp h
    cases others with
    | nil =>
      have hline : " ".intercalate [word] = "" ++ word ++ "" ++ "" := by simp
      rw [hline]
      exact .word rfl hword rfl (fun hne => absurd rfl hne) (.blank rfl)
    | cons next others =>
      have hline : " ".intercalate (word :: next :: others) =
          "" ++ word ++ " " ++ " ".intercalate (next :: others) := by
        rw [String.intercalate_cons_cons, String.empty_append]
      rw [hline]
      exact .word rfl hword (by decide) (fun _ => by decide) (ih hothers)

/-! ## Lines of which nothing is left -/

/-- Nothing is left when it is trimmed exactly of what is all white space. -/
theorem trimChars_eq_nil_iff : trimChars cs = [] ↔ cs.all isBlank = true := by
  rw [trimChars, List.reverse_eq_nil_iff, List.dropWhile_eq_nil_iff, List.all_eq_true]
  constructor
  · intro h c hc
    -- what is left in front would begin with a character that is no white space
    have hnil : cs.dropWhile isBlank = [] := by
      cases hdrop : cs.dropWhile isBlank with
      | nil => rfl
      | cons d ds =>
        have hsolid := List.head?_dropWhile_not isBlank cs
        rw [hdrop] at h hsolid
        have hblank := h d (by simp)
        simp [hblank] at hsolid
    exact List.dropWhile_eq_nil_iff.mp hnil c hc
  · intro h c hc
    exact h c ((List.dropWhile_sublist _).mem (List.mem_reverse.mp hc))

/-- **Nothing is left of a line that is trimmed if and only if it is blank.** -/
theorem trim_eq_empty_iff : trim line = "" ↔ isBlankLine line = true := by
  rw [trim, isBlankLine, ← trimChars_eq_nil_iff, ← String.toList_eq_nil_iff, String.toList_ofList]

/-! ## All lines -/

/-- **Words are what stands between white space.** A line is made of some words exactly if these are
cut out of it. They have characters, none of which is white space, and put together they are the
line without its white space. A row of texts is found again behind single blanks exactly if all of
them are words. A line has no words exactly if nothing is left of it when it is trimmed, which is
how a dialogue tells that it is blank; it passes over such a line, and if it did not, the line would
be skipped. -/
theorem words_are_spaced (line : String) :
    (∀ ws, words line = ws ↔ Spaced ws line) ∧
    (∀ word ∈ words line, word ≠ "" ∧ ∀ c ∈ word.toList, isBlank c = false) ∧
    String.join (words line) = String.ofList (line.toList.filter fun c => !isBlank c) ∧
    (∀ ws, words (" ".intercalate ws) = ws ↔ ∀ word ∈ ws, IsWord word) ∧
    (words line = [] ↔ trim line = "") ∧
    (trim line = "" ↔ isBlankLine line = true) ∧
    ∀ (limit : Nat) (s : Session), trim line = "" →
      s.respond limit (.line line) = some (.ok true, s) ∧
      s.executeLine limit line = some (.ok .skipped, s) := by
  have hspaced := spaced_words line
  refine ⟨?_, ?_, hspaced.join_eq, ?_, ?_, trim_eq_empty_iff, ?_⟩
  · intro ws
    refine ⟨?_, Spaced.words_eq⟩
    rintro rfl
    exact hspaced
  · intro word hword
    have hisWord := hspaced.isWord_of_mem hword
    exact ⟨hisWord.ne_empty, hisWord.unbroken⟩
  · intro ws
    constructor
    · intro hws word hword
      rw [← hws] at hword
      exact (spaced_words _).isWord_of_mem hword
    · intro hall
      exact (spaced_intercalate hall).words_eq
  · rw [words_eq_nil_iff, trim_eq_empty_iff]
  · intro limit s htrim
    have hblank := trim_eq_empty_iff.mp htrim
    refine ⟨?_, ?_⟩
    · rw [Session.respond, if_pos hblank]
    · rw [Session.executeLine, Request.ofLine, words_eq_nil_iff.mpr hblank]
      rfl

/-- An ideographic space and a line separator are as good as a blank, a zero-width space is not. -/
example : words "\u3000give\u2028 5\u200B6\t" = ["give", "5\u200B6"] := by decide

end Text

end CommandShell
