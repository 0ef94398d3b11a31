import CommandShell.Console.Completion
import CommandShell.Proofs.LineBreaks
import Mathlib.Data.List.DropRight

/-!
# Completion and the words of a line

The word at hand is found by a search of its own, backwards from a position that is counted in
bytes, and not by cutting the line into words. Both come to the same: the word that is completed has
no white space, and it is completed only if no word comes before it, so that the keyword that takes
its place is the first word of the line.

The search takes every white space to be one byte long. Behind a longer one it cannot say where the
word begins, since the place it looks at is inside of a character (`complete_behind_wide_blank`).
This is the only case in which a position between two characters has no answer.

Main definitions:

* `Completion.WordAt`: the word at hand, and what is before it;
* `Completion.endsNarrow`: what is before it does not end in the middle of a character.

Main results:

* `Completion.splitAtByte_eq_some_iff`: the cut after a number of bytes;
* `Completion.exists_wordAt_iff`: there is a word at hand at every boundary, and nowhere else;
* `Completion.WordAt.complete_eq`: all that is offered for the word at hand;
* `Completion.completes_iff_endsNarrow`: where completion has an answer, and where the word begins;
* `Completion.offers_agree_with_words`: what is offered, in terms of the words of the line.
-/

namespace CommandShell

namespace Text

/-! ## Words behind white space -/

variable {blanks word : List Char}

/-- What is no white space extends the word that it touches. -/
theorem cut_append_of_unbroken (h : ∀ c ∈ word, isBlank c = false) (cs : List Char) :
    cut (word ++ cs) = (word ++ (cut cs).1, (cut cs).2) := by
  induction word with
  | nil => rfl
  | cons c word ih =>
    obtain ⟨hc, hword⟩ := List.forall_mem_cons.mp h
    rw [List.cons_append, cut, hc, ih hword]
    rfl

theorem wordsOf_of_unbroken (h : ∀ c ∈ word, isBlank c = false) :
    wordsOf word = consWord word [] := by
  have hcut : cut word = (word, []) := by simpa [cut] using cut_append_of_unbroken h []
  rw [wordsOf, hcut]

/-- White space in front makes no word. -/
theorem wordsOf_append_of_all_isBlank (h : blanks.all isBlank = true) (cs : List Char) :
    wordsOf (blanks ++ cs) = wordsOf cs := by
  induction blanks with
  | nil => rfl
  | cons c blanks ih =>
    rw [List.all_cons, Bool.and_eq_true] at h
    rw [List.cons_append, words_cons_of_isBlank h.1, ih h.2]

theorem words_append_of_isBlankLine {leading : String} (h : isBlankLine leading = true)
    (text : String) : words (leading ++ text) = words text := by
  rw [words, String.toList_append, wordsOf_append_of_all_isBlank h, words]

/-- **A text without white space is one word**, unless it is empty. -/
theorem words_of_unbroken {word : String} (h : ∀ c ∈ word.toList, isBlank c = false) :
    words word = if word = "" then [] else [word] := by
  rw [words, wordsOf_of_unbroken h, consWord]
  by_cases hempty : word = ""
  · subst hempty
    rfl
  · have hne : word.toList.isEmpty = false := by simpa using hempty
    rw [if_neg hempty, hne]
    simp

end Text

namespace Completion

variable {n position start : Nat} {cs front back before rest : List Char} {c : Char}

/-! ## Bytes -/

/-- Bytes are counted as the size of a text counts them. -/
theorem byteCount_eq (cs : List Char) : byteCount cs = (String.ofList cs).utf8ByteSize := by
  -- the count goes on from what has been counted before
  have hfold : ∀ n, cs.foldl (fun n c => n + c.utf8Size) n =
      n + (String.ofList cs).utf8ByteSize := by
    induction cs with
    | nil => simp
    | cons c cs ih =>
      intro n
      rw [List.foldl_cons, ih, String.ofList_cons, String.utf8ByteSize_append,
        String.utf8ByteSize_singleton]
      omega
  rw [byteCount, hfold, Nat.zero_add]

@[simp] theorem byteCount_nil : byteCount [] = 0 := rfl

theorem byteCount_append (front back : List Char) :
    byteCount (front ++ back) = byteCount front + byteCount back := by
  simp only [byteCount_eq, String.ofList_append, String.utf8ByteSize_append]

theorem byteCount_cons (c : Char) (cs : List Char) :
    byteCount (c :: cs) = c.utf8Size + byteCount cs := by
  simp only [byteCount_eq, String.ofList_cons, String.utf8ByteSize_append,
    String.utf8ByteSize_singleton]

theorem byteCount_reverse (cs : List Char) : byteCount cs.reverse = byteCount cs := by
  induction cs with
  | nil => rfl
  | cons c cs ih =>
    rw [List.reverse_cons, byteCount_append, ih, byteCount_cons, byteCount_cons, byteCount_nil]
    omega

theorem byteCount_toList (text : String) : byteCount text.toList = text.utf8ByteSize := by
  rw [byteCount_eq, String.ofList_toList]

/-! ## The cut after a number of bytes -/

/-- What is cut off in front does not matter to the cut behind it. -/
theorem splitAtByte_append (n : Nat) (front rest : List Char) :
    splitAtByte (byteCount front + n) (front ++ rest) =
      (splitAtByte n rest).map fun parts => (front ++ parts.1, parts.2) := by
  -- along the part in front, whose characters are passed over one by one
  induction front with
  | nil => simp
  | cons c front ih =>
    have hpos := c.utf8Size_pos
    obtain ⟨m, hm⟩ : ∃ m, byteCount (c :: front) + n = m + 1 :=
      ⟨byteCount (c :: front) + n - 1, by rw [byteCount_cons]; omega⟩
    have hfits : c.utf8Size ≤ m + 1 := by rw [← hm, byteCount_cons]; omega
    have hrest : m + 1 - c.utf8Size = byteCount front + n := by rw [← hm, byteCount_cons]; omega
    rw [hm, List.cons_append, splitAtByte, if_pos hfits, hrest, ih, Option.map_map]
    rfl

/-- After as many bytes as some part has, the cut is behind that part. -/
theorem splitAtByte_byteCount (front rest : List Char) :
    splitAtByte (byteCount front) (front ++ rest) = some (front, rest) := by
  have happend := splitAtByte_append 0 front rest
  rw [Nat.add_zero] at happend
  simpa [splitAtByte] using happend

/-- One byte is cut off exactly if the first character is no longer than that. -/
theorem splitAtByte_one_cons (c : Char) (cs : List Char) :
    splitAtByte 1 (c :: cs) = if c.utf8Size = 1 then some ([c], cs) else none := by
  have hpos := c.utf8Size_pos
  by_cases hone : c.utf8Size = 1
  · simp [splitAtByte, hone]
  · rw [splitAtByte, if_neg (by omega), if_neg hone]

/-- **The cut after a number of bytes** is a cut, and the part in front has that many bytes. -/
theorem splitAtByte_eq_some_iff :
    splitAtByte n cs = some (front, back) ↔ cs = front ++ back ∧ byteCount front = n := by
  constructor
  · intro h
    -- along the characters, as the bytes that are still to be passed over become fewer
    induction cs generalizing n front with
    | nil =>
      cases n with
      | zero =>
        obtain ⟨rfl, rfl⟩ := Prod.mk.inj (Option.some.inj h)
        exact ⟨rfl, rfl⟩
      | succ n => simp [splitAtByte] at h
    | cons c cs ih =>
      cases n with
      | zero =>
        obtain ⟨rfl, rfl⟩ := Prod.mk.inj (Option.some.inj h)
        exact ⟨rfl, rfl⟩
      | succ n =>
        rw [splitAtByte] at h
        split at h
        · next hfits =>
          -- the first character fits into the bytes, and the cut lies among the others
          obtain ⟨⟨front', back'⟩, hsplit, heq⟩ := Option.map_eq_some_iff.mp h
          obtain ⟨rfl, rfl⟩ := Prod.mk.inj heq
          obtain ⟨rfl, hcount⟩ := ih hsplit
          refine ⟨rfl, ?_⟩
          rw [byteCount_cons, hcount]
          omega
        · simp at h
  · rintro ⟨rfl, rfl⟩
    exact splitAtByte_byteCount front back

/-! ## Where the word at hand begins -/

section Search

variable {word : List Char} (hword : ∀ c ∈ word, Text.isBlank c = false)

include hword

theorem wordStart_of_unbroken : wordStart word = 0 := by
  have hnone : (word.reverse.dropWhile fun c => !Text.isBlank c) = [] :=
    List.dropWhile_eq_nil_iff.mpr fun c hc => by simp [hword c (List.mem_reverse.mp hc)]
  rw [wordStart, lastBlank?, hnone]

/-- Behind white space a word is taken to begin one byte after the beginning of it. -/
theorem wordStart_of_isBlank (hc : Text.isBlank c = true) (front : List Char) :
    wordStart (front ++ [c] ++ word) = byteCount front + 1 := by
  have hback : ((front ++ [c] ++ word).reverse.dropWhile fun c => !Text.isBlank c) =
      c :: front.reverse := by
    rw [List.reverse_append, List.dropWhile_append_of_pos, List.reverse_append,
      List.reverse_singleton, List.singleton_append, List.dropWhile_cons_of_neg (by simp [hc])]
    intro d hd
    simp [hword d (List.mem_reverse.mp hd)]
  rw [wordStart, lastBlank?, hback]
  show byteCount front.reverse + 1 = byteCount front + 1
  rw [byteCount_reverse]

end Search

/-- Whether the last character of a text, if there is one, is one byte long. -/
def endsNarrow (text : String) : Bool := text.toList.getLast?.all fun c => c.utf8Size == 1

/-- The word at hand at a position of a line, and all that is before it. The word reaches up to the
position and has no white space, and what is before it is nothing, or ends with white space. -/
structure WordAt (line : String) (position : Nat) (leading word : String) : Prop where
  line_eq : ∃ rest, line = leading ++ word ++ rest
  position_eq : position = (leading ++ word).utf8ByteSize
  unbroken : ∀ c ∈ word.toList, Text.isBlank c = false
  ends_blank : ∀ c, leading.toList.getLast? = some c → Text.isBlank c = true

/-- **There is a word at hand at every boundary between characters**, and nowhere else. It may be
empty. -/
theorem exists_wordAt_iff {line : String} :
    (∃ leading word, WordAt line position leading word) ↔
      (⟨position⟩ : String.Pos.Raw).IsValid line := by
  rw [String.Pos.Raw.isValid_iff_exists_append]
  constructor
  · rintro ⟨leading, word, ⟨rest, hline⟩, hposition, -, -⟩
    refine ⟨leading ++ word, rest, hline, ?_⟩
    rw [hposition]
    rfl
  · rintro ⟨before, rest, rfl, hposition⟩
    have hposition : position = before.utf8ByteSize := congrArg String.Pos.Raw.byteIdx hposition
    -- what is before the position is cut behind its last white space
    let isSolid : Char → Bool := fun c => !Text.isBlank c
    have hparts : before.toList.rdropWhile isSolid ++ before.toList.rtakeWhile isSolid =
        before.toList := List.rdropWhile_append_rtakeWhile
    have hbefore : String.ofList (before.toList.rdropWhile isSolid) ++
        String.ofList (before.toList.rtakeWhile isSolid) = before := by
      rw [← String.ofList_append, hparts, String.ofList_toList]
    refine ⟨_, _, ⟨rest, by rw [hbefore]⟩, by rw [hbefore, hposition], ?_, ?_⟩
    · intro c hc
      rw [String.toList_ofList] at hc
      simpa [isSolid] using List.mem_rtakeWhile_imp hc
    · intro c hc
      rw [String.toList_ofList] at hc
      have hne : before.toList.rdropWhile isSolid ≠ [] := by
        rintro hnil
        simp [hnil] at hc
      have hlast := List.rdropWhile_last_not isSolid before.toList hne
      rw [List.getLast?_eq_some_getLast hne] at hc
      rw [Option.some.inj hc] at hlast
      simpa [isSolid] using hlast

variable {keywords : List String} {line leading word : String} {offers : List Offer}

/-- The cut at the place where the word at hand is looked for: there is none behind a white space
that is longer than one byte. -/
theorem WordAt.splitAtByte_wordStart (h : WordAt line position leading word) :
    splitAtByte (wordStart (leading ++ word).toList) (leading ++ word).toList =
      if endsNarrow leading then some (leading.toList, word.toList) else none := by
  rw [String.toList_append]
  -- either nothing is before the word, or a last character, which is white space
  rcases List.eq_nil_or_concat leading.toList with hnil | ⟨front, c, hconcat⟩
  · have hnarrow : endsNarrow leading = true := by simp [endsNarrow, hnil]
    rw [hnil, List.nil_append, wordStart_of_unbroken h.unbroken, hnarrow]
    exact splitAtByte_byteCount [] word.toList
  · rw [List.concat_eq_append] at hconcat
    have hc : Text.isBlank c = true := h.ends_blank c (by simp [hconcat])
    have hnarrow : endsNarrow leading = (c.utf8Size == 1) := by simp [endsNarrow, hconcat]
    rw [hconcat, wordStart_of_isBlank h.unbroken hc, List.append_assoc, List.singleton_append,
      splitAtByte_append, splitAtByte_one_cons, hnarrow]
    -- one byte behind its beginning, that character has ended, or the cut would be inside of it
    by_cases hone : c.utf8Size = 1
    · simp [hone]
    · simp [hone]

/-- Behind a white space of one byte, the word is taken to begin where it does. -/
theorem WordAt.wordStart_eq (h : WordAt line position leading word)
    (hnarrow : endsNarrow leading = true) :
    wordStart (leading ++ word).toList = leading.utf8ByteSize := by
  have hsplit := h.splitAtByte_wordStart
  rw [hnarrow, if_pos rfl] at hsplit
  rw [← (splitAtByte_eq_some_iff.mp hsplit).2, byteCount_toList]

/-- **All that is offered for the word at hand.** There is an answer unless a white space that is
longer than one byte comes before the word; it says that the word begins behind the white space, and
the keywords that begin with it are offered if nothing but white space comes before it. -/
theorem WordAt.complete_eq (h : WordAt line position leading word) (keywords : List String) :
    complete keywords line position =
      if endsNarrow leading then
        some (leading.utf8ByteSize, if Text.isBlankLine leading then
          (keywords.filter fun k => word.toList.isPrefixOf k.toList).map Offer.ofKeyword else [])
      else none := by
  obtain ⟨rest, hline⟩ := h.line_eq
  have hposition : splitAtByte position line.toList =
      some ((leading ++ word).toList, rest.toList) := by
    rw [hline, String.toList_append, h.position_eq, ← byteCount_toList, splitAtByte_byteCount]
  -- two cuts: at the position, and at the beginning of the word
  rw [complete, candidates, hposition]
  dsimp only
  rw [h.splitAtByte_wordStart]
  cases hnarrow : endsNarrow leading with
  | false => rfl
  | true =>
    rw [if_pos rfl, if_pos rfl]
    dsimp only
    rw [h.wordStart_eq hnarrow]
    have hall : leading.toList.all Text.isBlank = Text.isBlankLine leading := rfl
    rw [hall]
    cases Text.isBlankLine leading <;> rfl

/-- There is an answer at boundaries between characters only. -/
theorem isValid_of_complete (h : complete keywords line position = some (start, offers)) :
    (⟨position⟩ : String.Pos.Raw).IsValid line := by
  obtain ⟨found, hfound, -⟩ := Option.map_eq_some_iff.mp h
  rw [candidates] at hfound
  split at hfound
  · simp at hfound
  · next before rest hsplit =>
    obtain ⟨hline, hcount⟩ := splitAtByte_eq_some_iff.mp hsplit
    refine String.Pos.Raw.isValid_iff_exists_append.mpr
      ⟨String.ofList before, String.ofList rest, ?_, ?_⟩
    · rw [← String.ofList_append, ← hline, String.ofList_toList]
    · rw [← hcount, byteCount_eq]
      rfl

/-- **Where completion has an answer.** At every boundary between characters there is a word at
hand, and it begins at a boundary that is not behind the position. Whether there is an answer
depends on the last character before the word alone: there is one exactly if the word begins the
line or comes behind a white space of one byte. Then the answer says where the word begins. -/
theorem completes_iff_endsNarrow (keywords : List String)
    (hposition : (⟨position⟩ : String.Pos.Raw).IsValid line) :
    ∃ leading word, WordAt line position leading word ∧ leading.utf8ByteSize ≤ position ∧
      (⟨leading.utf8ByteSize⟩ : String.Pos.Raw).IsValid line ∧
      ((complete keywords line position).isSome ↔ endsNarrow leading = true) ∧
      ∀ start offers, complete keywords line position = some (start, offers) →
        start = leading.utf8ByteSize := by
  obtain ⟨leading, word, h⟩ := exists_wordAt_iff.mpr hposition
  -- one equation has all of it: where an answer is, and what it says
  have hcomplete := h.complete_eq keywords
  have hle : leading.utf8ByteSize ≤ position := by
    rw [h.position_eq, String.utf8ByteSize_append]
    omega
  have hvalid : (⟨leading.utf8ByteSize⟩ : String.Pos.Raw).IsValid line := by
    obtain ⟨rest, hline⟩ := h.line_eq
    refine String.Pos.Raw.isValid_iff_exists_append.mpr ⟨leading, word ++ rest, ?_, rfl⟩
    rw [hline, String.append_assoc]
  refine ⟨leading, word, h, hle, hvalid, ?_, ?_⟩
  · rw [hcomplete]
    cases endsNarrow leading <;> simp
  · intro start offers hsome
    rw [hcomplete] at hsome
    split at hsome
    · exact (Prod.mk.inj (Option.some.inj hsome)).1.symm
    · simp at hsome

/-- A wide white space in front, and a narrow one between it and the word. -/
theorem completes_iff_endsNarrow_indented :
    (⟨5⟩ : String.Pos.Raw).IsValid "\u00A0 gi x" ∧
    ∃ leading word, WordAt "\u00A0 gi x" 5 leading word ∧ leading.utf8ByteSize ≤ 5 ∧
      (⟨leading.utf8ByteSize⟩ : String.Pos.Raw).IsValid "\u00A0 gi x" ∧
      ((complete ["give"] "\u00A0 gi x" 5).isSome ↔ endsNarrow leading = true) ∧
      complete ["give"] "\u00A0 gi x" 5 = some (3, [⟨"give", "give"⟩]) ∧
      3 = leading.utf8ByteSize := by
  have hposition : (⟨5⟩ : String.Pos.Raw).IsValid "\u00A0 gi x" :=
    String.Pos.Raw.isValid_iff_exists_append.mpr ⟨"\u00A0 gi", " x", by decide, by decide⟩
  have hcomplete : complete ["give"] "\u00A0 gi x" 5 = some (3, [⟨"give", "give"⟩]) := by decide
  obtain ⟨leading, word, h, hle, hvalid, hsome, hstart⟩ :=
    completes_iff_endsNarrow ["give"] hposition
  exact ⟨hposition, leading, word, h, hle, hvalid, hsome, hcomplete, hstart _ _ hcomplete⟩

/-- Behind a no-break space, which is two bytes long, a word cannot be completed. -/
theorem complete_behind_wide_blank :
    (⟨3⟩ : String.Pos.Raw).IsValid "\u00A0g" ∧ WordAt "\u00A0g" 3 "\u00A0" "g" ∧
      complete ["give"] "\u00A0g" 3 = none := by
  have hposition : (⟨3⟩ : String.Pos.Raw).IsValid "\u00A0g" :=
    String.Pos.Raw.isValid_iff_exists_append.mpr ⟨"\u00A0g", "", by decide, by decide⟩
  have hword : WordAt "\u00A0g" 3 "\u00A0" "g" :=
    { line_eq := ⟨"", by decide⟩
      position_eq := by decide
      -- Not for all characters there are, but for the one of each text.
      unbroken := by simp only [String.reduceToList, List.forall_mem_singleton]; decide
      ends_blank := by simp; decide }
  exact ⟨hposition, hword, by decide⟩

/-- **What is offered agrees with the words of the line.** If completion has an answer, the word at
hand has no white space and begins where the answer says. If there are words before it, nothing is
offered; if there are none, exactly the keywords that begin with it are offered, in their order and
as often as they are listed, shown and put in as they are. So something is offered only up to the
end of the first word, which all that is offered begins with, and a keyword without white space, put
in place of the word at hand, is the only word up to there. -/
theorem offers_agree_with_words
    (hsome : complete keywords line position = some (start, offers)) :
    ∃ leading word, WordAt line position leading word ∧ start = leading.utf8ByteSize ∧
      (Text.words leading ≠ [] → offers = []) ∧
      (Text.words leading = [] → offers =
        (keywords.filter fun k => decide (word.toList <+: k.toList)).map fun k => ⟨k, k⟩) ∧
      (offers ≠ [] → (Text.words (leading ++ word)).length ≤ 1 ∧
        ∀ token ∈ Text.words (leading ++ word), ∀ offer ∈ offers,
          token.toList <+: offer.replacement.toList) ∧
      ∀ offer ∈ offers, offer.replacement ≠ "" →
        (∀ c ∈ offer.replacement.toList, Text.isBlank c = false) →
          Text.words (leading ++ offer.replacement) = [offer.replacement] := by
  obtain ⟨leading, word, h⟩ := exists_wordAt_iff.mpr (isValid_of_complete hsome)
  rw [h.complete_eq keywords] at hsome
  split at hsome
  · obtain ⟨rfl, hoffers⟩ := Prod.mk.inj (Option.some.inj hsome)
    -- offers are made in the first word only, and all of them extend it
    have hblank : offers ≠ [] → Text.isBlankLine leading = true := by
      intro hne
      by_contra hsolid
      exact hne (by rw [← hoffers, if_neg hsolid])
    have hextends : ∀ offer ∈ offers, word.toList <+: offer.replacement.toList := by
      intro offer hoffer
      have hleading : Text.isBlankLine leading = true := hblank (List.ne_nil_of_mem hoffer)
      rw [← hoffers, if_pos hleading] at hoffer
      obtain ⟨k, hk, rfl⟩ := List.mem_map.mp hoffer
      exact List.isPrefixOf_iff_prefix.mp (List.mem_filter.mp hk).2
    refine ⟨leading, word, h, rfl, ?_, ?_, ?_, ?_⟩
    · intro hwords
      by_contra hne
      exact hwords (Text.words_eq_nil_iff.mpr (hblank hne))
    · intro hwords
      rw [← hoffers, if_pos (Text.words_eq_nil_iff.mp hwords)]
      congr 1
      refine List.filter_congr fun k _ => ?_
      rw [Bool.eq_iff_iff, List.isPrefixOf_iff_prefix, decide_eq_true_iff]
    · intro hne
      rw [Text.words_append_of_isBlankLine (hblank hne), Text.words_of_unbroken h.unbroken]
      by_cases hempty : word = ""
      · simp [hempty]
      · rw [if_neg hempty]
        refine ⟨Nat.le_refl 1, fun token htoken => ?_⟩
        rw [List.mem_singleton.mp htoken]
        exact hextends
    · intro offer hoffer hne hunbroken
      have hleading : Text.isBlankLine leading = true := hblank (List.ne_nil_of_mem hoffer)
      rw [Text.words_append_of_isBlankLine hleading, Text.words_of_unbroken hunbroken, if_neg hne]
  · simp at hsome

/-- Two keywords offered, one of them twice, behind white space of more than one kind. -/
theorem offers_agree_with_words_twice :
    let keywords := ["give", "echo", "gamemode", "give"]
    let offers := [⟨"give", "give"⟩, ⟨"gamemode", "gamemode"⟩, ⟨"give", "give"⟩]
    complete keywords "\u00A0 g" 4 = some (3, offers) ∧
    ∃ leading word, WordAt "\u00A0 g" 4 leading word ∧ 3 = leading.utf8ByteSize ∧
      (Text.words leading ≠ [] → offers = []) ∧
      (Text.words leading = [] → offers =
        (keywords.filter fun k => decide (word.toList <+: k.toList)).map fun k => ⟨k, k⟩) ∧
      (offers ≠ [] → (Text.words (leading ++ word)).length ≤ 1 ∧
        ∀ token ∈ Text.words (leading ++ word), ∀ offer ∈ offers,
          token.toList <+: offer.replacement.toList) ∧
      ∀ offer ∈ offers, offer.replacement ≠ "" →
        (∀ c ∈ offer.replacement.toList, Text.isBlank c = false) →
          Text.words (leading ++ offer.replacement) = [offer.replacement] := by
  intro keywords offers
  have hsome : complete keywords "\u00A0 g" 4 = some (3, offers) := by decide
  exact ⟨hsome, offers_agree_with_words hsome⟩

end Completion

end CommandShell
