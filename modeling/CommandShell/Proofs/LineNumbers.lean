import CommandShell.Proofs.Reports

/-!
# Line breaks and line numbers of scripts

A script is one text, and its lines are found again by its line breaks. A line break can be written
with a carriage return before the line feed, and the last line may have one or not. Neither is seen
by a script. A carriage return is white space, so a line has the same words with it and without it,
however many of them are left over, and what is reported of a line is trimmed. A line break at the
very end either closes the last line, or it makes one more line, which is blank and skipped.

What is reported of a line is its number. Lines are counted as they are read, and none is left out,
be it blank, a comment or a question for help. So the number is one more than the line feeds before
the line, whatever has become of the lines before it.

Main definitions:

* `Text.withReturns`: a text with all its line breaks written with a carriage return;
* `Text.SameLines`: lines that a script cannot tell apart;
* `Text.LineAt`: where a line stands in a text.

Main results:

* `Text.sameLines_withReturns`, `Text.sameLines_append_feed`: other line breaks, the same lines;
* `Text.exists_lineAt`: as many line feeds stand before a line as other lines;
* `Session.executeLines_eq_of_sameLines`: a script on lines that it cannot tell apart;
* `Session.script_line_breaks_and_numbers`: what becomes of a script, and what it reports.
-/

namespace CommandShell

namespace Text

/-! ## Other line breaks -/

/-- A text with a carriage return before every line feed. -/
def withReturns (text : String) : String :=
  String.ofList (text.toList.flatMap fun c => if c = '\n' then ['\r', '\n'] else [c])

namespace Piece

variable {α : Type} [DecidableEq α] {feed : α}

/-- A piece with one more symbol before the line feed that ended it. -/
def withReturn (ret : α) (p : Piece α) : Piece α :=
  { p with content := if p.ended then p.content ++ [ret] else p.content }

/-- The pieces when one more line feed comes in the end: it ends the last piece, or is one of its
own. -/
def close : List (Piece α) → List (Piece α)
  | [] => [⟨[], true⟩]
  | [p] => if p.ended then [p, ⟨[], true⟩] else [{ p with ended := true }]
  | p :: q :: ps => p :: close (q :: ps)

omit [DecidableEq α] in
/-- A symbol in front of the first piece does not mind what comes at its end. -/
theorem consFirst_map_withReturn (ret a : α) (ps : List (Piece α)) :
    consFirst a (ps.map (withReturn ret)) = (consFirst a ps).map (withReturn ret) := by
  cases ps with
  | nil => rfl
  | cons p ps =>
    obtain ⟨content, ended⟩ := p
    cases ended <;> rfl

/-- Where every line feed has a carriage return before it, so has every piece that ends with one. -/
theorem split_flatMap_withReturn {ret : α} (hret : ret ≠ feed) (as : List α) :
    split feed (as.flatMap fun a => if a = feed then [ret, feed] else [a]) =
      (split feed as).map (withReturn ret) := by
  -- along the symbols, as they are split
  induction as with
  | nil => rfl
  | cons a as ih =>
    rw [List.flatMap_cons]
    by_cases ha : a = feed
    · -- the return that comes before the line feed is a piece with it
      rw [if_pos ha, split, if_pos ha, List.cons_append, List.singleton_append, split, if_neg hret,
        split, if_pos rfl, ih]
      rfl
    · rw [if_neg ha, split, if_neg ha, List.singleton_append, split, if_neg ha, ih,
        consFirst_map_withReturn]

omit [DecidableEq α] in
theorem consFirst_close (a : α) (ps : List (Piece α)) :
    consFirst a (close ps) = close (consFirst a ps) := by
  match ps with
  | [] => rfl
  | [⟨content, ended⟩] => cases ended <;> rfl
  | p :: q :: ps => rfl

/-- A line feed in the end closes the last piece. -/
theorem split_concat_feed (as : List α) : split feed (as ++ [feed]) = close (split feed as) := by
  induction as with
  | nil => simp [split, close]
  | cons a as ih =>
    rw [List.cons_append, split, split, ih]
    by_cases ha : a = feed
    · rw [if_pos ha, if_pos ha]
      -- the line feed at hand ends a piece, whether or not others come behind it
      cases split feed as <;> rfl
    · rw [if_neg ha, if_neg ha, consFirst_close]

/-- The line that a piece of text holds, as a text. -/
def lineOf (p : Piece Char) : String := String.ofList (p.line '\r')

/-- The line of a piece is its content, or its content without a carriage return. -/
theorem line_cases (p : Piece Char) :
    p.line '\r' = p.content ∨ p.line '\r' = chompChars p.content := by
  rw [line, chompChars]
  cases p.ended with
  | false => exact .inl rfl
  | true => exact .inr rfl

theorem words_lineOf (p : Piece Char) : words p.lineOf = words (String.ofList p.content) := by
  rw [words, words, lineOf, String.toList_ofList, String.toList_ofList]
  rcases p.line_cases with hline | hline
  · rw [hline]
  · rw [hline, wordsOf_chompChars]

theorem trim_lineOf (p : Piece Char) : trim p.lineOf = trim (String.ofList p.content) := by
  rw [trim, trim, lineOf, String.toList_ofList, String.toList_ofList]
  rcases p.line_cases with hline | hline
  · rw [hline]
  · rw [hline, trimChars_chompChars]

theorem words_lineOf_withReturn (p : Piece Char) :
    words (p.withReturn '\r').lineOf = words p.lineOf := by
  rw [words_lineOf, words_lineOf, withReturn, words, words, String.toList_ofList,
    String.toList_ofList]
  cases p.ended with
  | false => rfl
  | true => exact congrArg _ (wordsOf_concat_of_isBlank (by decide) p.content)

theorem trim_lineOf_withReturn (p : Piece Char) :
    trim (p.withReturn '\r').lineOf = trim p.lineOf := by
  rw [trim_lineOf, trim_lineOf, withReturn, trim, trim, String.toList_ofList,
    String.toList_ofList]
  cases p.ended with
  | false => rfl
  | true => exact congrArg _ (trimChars_concat_of_isBlank (by decide) p.content)

end Piece

/-! ### Lines that a script cannot tell apart -/

/-- Lines with the same words, and the same text between the white space at both ends. In the end
there may be a blank line more. -/
inductive SameLines : List String → List String → Prop where
  | nil : SameLines [] []
  | blank {line : String} (wordless : words line = []) : SameLines [] [line]
  | cons {line line' : String} {lines lines' : List String} (words_eq : words line' = words line)
      (trim_eq : trim line' = trim line) (rest : SameLines lines lines') :
      SameLines (line :: lines) (line' :: lines')

theorem lines_eq_map_lineOf (text : String) :
    lines text = (Piece.split '\n' text.toList).map Piece.lineOf := rfl

/-- **Line breaks with a carriage return** make the same lines. -/
theorem sameLines_withReturns (text : String) :
    SameLines (lines text) (lines (withReturns text)) := by
  rw [lines_eq_map_lineOf, lines_eq_map_lineOf, withReturns, String.toList_ofList,
    Piece.split_flatMap_withReturn (by decide)]
  -- piece by piece, each with its own carriage return
  induction Piece.split '\n' text.toList with
  | nil => exact .nil
  | cons p ps ih => exact .cons p.words_lineOf_withReturn p.trim_lineOf_withReturn ih

/-- **A line break in the end** makes the same lines. -/
theorem sameLines_append_feed (text : String) :
    SameLines (lines text) (lines (text ++ "\n")) := by
  rw [lines_eq_map_lineOf, lines_eq_map_lineOf, String.toList_append]
  show SameLines _ ((Piece.split '\n' (text.toList ++ ['\n'])).map Piece.lineOf)
  rw [Piece.split_concat_feed]
  fun_induction Piece.close (Piece.split '\n' text.toList) with
  | case1 => exact .blank rfl
  | case2 p hended => exact .cons rfl rfl (.blank rfl)
  | case3 p hopen =>
    -- the last line is closed, and at most a carriage return goes with the line feed
    refine .cons ?_ ?_ .nil
    · rw [Piece.words_lineOf, Piece.words_lineOf]
    · rw [Piece.trim_lineOf, Piece.trim_lineOf]
  | case4 p q ps ih => exact .cons rfl rfl ih

/-! ## Where lines stand -/

namespace Piece

variable {α : Type} {feed a : α} {as before : List α} {p : Piece α}

/-- Where a piece stands: behind a line feed or at the very beginning, and up to a line feed or to
the very end. -/
structure StandsAt (feed : α) (as before : List α) (p : Piece α) : Prop where
  opens : before = [] ∨ before.getLast? = some feed
  unbroken : feed ∉ p.content
  closes : (p.ended = false ∧ as = before ++ p.content) ∨
    ∃ rest, p.ended = true ∧ as = before ++ p.content ++ feed :: rest

/-- One more symbol in front stands before a piece that is not the first one. -/
theorem StandsAt.cons (h : StandsAt feed as before p) (ha : a = feed ∨ before ≠ []) :
    StandsAt feed (a :: as) (a :: before) p := by
  refine ⟨.inr ?_, h.unbroken, ?_⟩
  · cases before with
    | nil => rw [ha.resolve_right (fun hne => hne rfl), List.getLast?_singleton]
    | cons b before => rw [List.getLast?_cons_cons, h.opens.resolve_left (List.cons_ne_nil _ _)]
  · rcases h.closes with ⟨hended, hsplit⟩ | ⟨rest, hended, hsplit⟩
    · exact .inl ⟨hended, congrArg (a :: ·) hsplit⟩
    · exact .inr ⟨rest, hended, congrArg (a :: ·) hsplit⟩

/-- One more symbol in front belongs to the first piece if it is no line feed. -/
theorem StandsAt.consFirst (h : StandsAt feed as [] p) (ha : a ≠ feed) :
    StandsAt feed (a :: as) [] { p with content := a :: p.content } := by
  refine ⟨.inl rfl, ?_, ?_⟩
  · rw [List.mem_cons, not_or]
    exact ⟨ha.symm, h.unbroken⟩
  · rcases h.closes with ⟨hended, hsplit⟩ | ⟨rest, hended, hsplit⟩
    · exact .inl ⟨hended, congrArg (a :: ·) hsplit⟩
    · exact .inr ⟨rest, hended, congrArg (a :: ·) hsplit⟩

variable [DecidableEq α]

theorem StandsAt.before_eq_nil (h : StandsAt feed as before p) (hcount : before.count feed = 0) :
    before = [] := by
  refine h.opens.resolve_right fun hlast => ?_
  exact List.count_eq_zero.mp hcount (List.mem_of_getLast? hlast)

/-- Only nothing has no pieces. -/
theorem eq_nil_of_split_eq_nil (h : split feed as = []) : as = [] := by
  rw [← join_split feed as, h]
  rfl

/-- **Before a piece stand as many line feeds as other pieces.** -/
theorem exists_standsAt {i : Nat} (h : (split feed as)[i]? = some p) :
    ∃ before, StandsAt feed as before p ∧ before.count feed = i := by
  -- induction on the symbols, for every piece: the one at hand is put in front of all of them
  induction as generalizing i p with
  | nil => simp [split] at h
  | cons a as ih =>
    rw [split] at h
    by_cases ha : a = feed
    · -- a line feed in front is a piece of its own
      rw [if_pos ha] at h
      subst ha
      cases i with
      | zero =>
        obtain rfl := Option.some.inj h
        exact ⟨[], ⟨.inl rfl, List.not_mem_nil, .inr ⟨as, rfl, rfl⟩⟩, rfl⟩
      | succ i =>
        obtain ⟨before, hstands, hcount⟩ := ih h
        exact ⟨a :: before, hstands.cons (.inl rfl), by rw [List.count_cons_self, hcount]⟩
    · rw [if_neg ha] at h
      cases hsplit : split feed as with
      | nil =>
        -- nothing comes behind it, so it is the only piece
        rw [hsplit] at h
        cases i with
        | zero =>
          obtain rfl := Option.some.inj h
          refine ⟨[], ⟨.inl rfl, ?_, .inl ⟨rfl, ?_⟩⟩, rfl⟩
          · simpa using Ne.symm ha
          · rw [eq_nil_of_split_eq_nil hsplit]
            rfl
        | succ i => simp [Piece.consFirst] at h
      | cons q ps =>
        -- it belongs to the first piece and stands before the others
        rw [hsplit] at h
        rw [hsplit] at ih
        cases i with
        | zero =>
          obtain rfl := Option.some.inj h
          obtain ⟨before, hstands, hcount⟩ := ih (i := 0) rfl
          obtain rfl := hstands.before_eq_nil hcount
          exact ⟨[], hstands.consFirst ha, rfl⟩
        | succ i =>
          obtain ⟨before, hstands, hcount⟩ := ih (i := i + 1) h
          refine ⟨a :: before, hstands.cons (.inr ?_), ?_⟩
          · rintro rfl
            exact Nat.succ_ne_zero i hcount.symm
          · rw [List.count_cons_of_ne ha, hcount]

end Piece

/-- Where a line stands in a text: behind a line feed or at the very beginning, and up to a line
break or to the very end. -/
structure LineAt (text before line : String) : Prop where
  opens : before = "" ∨ before.toList.getLast? = some '\n'
  unbroken : '\n' ∉ line.toList
  closes : ∃ after, text = before ++ line ++ after ∧
    (after = "" ∨ ∃ rest, after = "\n" ++ rest ∨ after = "\r\n" ++ rest)

/-- The line of a piece stands where the piece does. -/
theorem Piece.StandsAt.lineAt {text : String} {before : List Char} {p : Piece Char}
    (h : StandsAt '\n' text.toList before p) : LineAt text (String.ofList before) p.lineOf := by
  have hopens : String.ofList before = "" ∨
      (String.ofList before).toList.getLast? = some '\n' := by
    rw [String.toList_ofList]
    exact h.opens.imp_left fun hnil => by rw [hnil]
  -- a piece reaches up to a line feed or to the end, and may lose a carriage return before the line
  -- feed
  rcases h.closes with ⟨hended, hsplit⟩ | ⟨rest, hended, hsplit⟩
  · -- without a line break, a carriage return at the end is a part of the line
    have hline : p.line '\r' = p.content := by rw [line, hended]; rfl
    rw [lineOf, hline]
    refine ⟨hopens, ?_, "", ?_, .inl rfl⟩
    · rw [String.toList_ofList]
      exact h.unbroken
    · apply String.toList_inj.mp
      simp [hsplit]
  · have hline : p.line '\r' = chompChars p.content := by rw [line, hended]; rfl
    rw [lineOf, hline]
    rcases chompChars_cases p.content with hsame | ⟨front, hcontent, hfront⟩
    · rw [hsame]
      refine ⟨hopens, ?_, "\n" ++ String.ofList rest, ?_, .inr ⟨_, .inl rfl⟩⟩
      · rw [String.toList_ofList]
        exact h.unbroken
      · apply String.toList_inj.mp
        simp [hsplit]
    · -- the carriage return is a part of the line break
      rw [hfront]
      refine ⟨hopens, ?_, "\r\n" ++ String.ofList rest, ?_, .inr ⟨_, .inr rfl⟩⟩
      · rw [String.toList_ofList]
        intro hmem
        exact h.unbroken (hcontent ▸ List.mem_append_left _ hmem)
      · apply String.toList_inj.mp
        simp [hsplit, hcontent]

/-- **Before a line stand as many line feeds as other lines.** -/
theorem exists_lineAt {text line : String} {i : Nat} (h : (lines text)[i]? = some line) :
    ∃ before, LineAt text before line ∧ before.toList.count '\n' = i := by
  rw [lines_eq_map_lineOf, List.getElem?_map, Option.map_eq_some_iff] at h
  obtain ⟨p, hp, rfl⟩ := h
  obtain ⟨before, hstands, hcount⟩ := Piece.exists_standsAt hp
  exact ⟨String.ofList before, hstands.lineAt, by rw [String.toList_ofList, hcount]⟩

end Text

namespace Session

open Request (Leaves staying)

variable {limit number : Nat} {settings : Settings} {files : FileReader} {line path : String}
  {lines lines' : List String} {s t u : Session} {results : List LineResult} {fault : Fault}

/-- **A script does not tell lines apart** that have the same words and look the same without the
white space around them, and it does not notice a blank line in the end. -/
theorem executeLines_eq_of_sameLines (h : Text.SameLines lines lines') (stop : Bool) (number : Nat)
    (summary : Summary) (s : Session) :
    executeLines limit stop path number lines' summary s =
      executeLines limit stop path number lines summary s := by
  -- along the lines, with any number and any counts so far
  induction h generalizing number summary s with
  | nil => rfl
  | @blank line wordless =>
    have hskip : Request.ofLine line = .skip := congrArg Request.ofTokens wordless
    have hexecute : s.executeLine limit line = some (.ok .skipped, s) := by
      rw [executeLine, hskip]
      rfl
    have hstays : ¬ Leaves line := by simp [Leaves, wordless]
    rw [executeLines_of_goes_on hstays hexecute fun _ => rfl]
    rfl
  | cons words_eq trim_eq _ ih =>
    simp only [executeLines, executeLine_congr words_eq, scriptFault, trim_eq, ih]

/-! ## Failures and their numbers -/

/-- Each failure among lines that are gone through is that of one of the lines, which is executed
and fails when its turn comes; its number tells how many lines come before it. -/
theorem Passes.exists_of_mem_failures {locate : Nat → String → Fault → Fault} {f : Failure}
    (h : Passes limit locate number lines results s t) (hf : f ∈ failures number lines results) :
    ∃ before after first v u, lines = before ++ f.line :: after ∧
      f.number = number + before.length ∧ Passes limit locate number before first s v ∧
      first <+: results ∧ v.executeLine limit f.line = some (.error f.fault, u) := by
  induction h with
  | nil => simp [failures] at hf
  | @cons number line lines result results s w t stays executed _ ih =>
    -- a failure behind the first line has one line more before it
    have hbehind : f ∈ failures (number + 1) lines results →
        ∃ before after first v u, line :: lines = before ++ f.line :: after ∧
          f.number = number + before.length ∧ Passes limit locate number before first s v ∧
          first <+: result :: results ∧ v.executeLine limit f.line = some (.error f.fault, u) := by
      intro hmem
      obtain ⟨before, after, first, v, u, hlines, hnumber, hpasses, hfront, hline⟩ := ih hmem
      refine ⟨line :: before, after, result :: first, v, u, congrArg (line :: ·) hlines, ?_,
        .cons stays executed hpasses, ?_, hline⟩
      · rw [hnumber, List.length_cons]
        omega
      · exact (List.prefix_cons_inj result).mpr hfront
    cases result with
    | ok outcome => exact hbehind hf
    | error fault =>
      rw [failures, List.mem_cons] at hf
      rcases hf with rfl | hmem
      · exact ⟨[], lines, [], s, w, rfl, rfl, .nil number s, List.nil_prefix, executed⟩
      · exact hbehind hmem

/-- As many lines have failed as are counted. -/
theorem Passes.length_failures {locate : Nat → String → Fault → Fault}
    (h : Passes limit locate number lines results s t) :
    (failures number lines results).length = results.countP LineResult.isFailed := by
  -- along the lines, of which each counts if and only if it has failed
  induction h with
  | nil => rfl
  | @cons number line lines result results s w t _ _ _ ih =>
    cases result with
    | ok outcome => rw [failures, ih, List.countP_cons_of_neg (by simp [LineResult.isFailed])]
    | error fault => rw [failures, List.length_cons, ih, List.countP_cons_of_pos rfl]

/-- A line that fails stands in the text, behind as many line feeds as its number says. -/
theorem LineFails.exists_lineAt {text : String} (hread : files path = .ok text)
    (h : LineFails limit settings files path s number line fault u) :
    ∃ before, Text.LineAt text before line ∧ number = 1 + before.toList.count '\n' := by
  obtain @⟨text', line, before, after, results, fault, s, v, u, hread', hsplit, -, -, -⟩ := h
  obtain rfl := Except.ok.inj (hread.symm.trans hread')
  have hget : (Text.lines text)[before.length]? = some line := by
    rw [hsplit, List.getElem?_append_right (Nat.le_refl _), Nat.sub_self]
    rfl
  obtain ⟨front, hline, hcount⟩ := Text.exists_lineAt hget
  exact ⟨front, hline, by rw [hcount, Nat.add_comm]⟩

/-- A script that gets through has reported the failures that it counts, each of a line that is
executed and fails. -/
theorem exists_failures_of_executeScript {summary : Summary}
    (h : s.executeScript limit settings files path = some (.ok summary, t)) :
    ∃ failed : List Failure, summary.failed = failed.length ∧
      (t.complaints = s.complaints ++ failed.flatMap fun f =>
        (scriptFault path f.number f.line f.fault).reportLines) ∧
      ∀ f ∈ failed, ∃ u, LineFails limit settings files path s f.number f.line f.fault u := by
  obtain ⟨results, ⟨⟨text, hread, hpasses⟩, hsucceeded⟩, rfl⟩ := executeScript_eq_ok_iff.mp h
  refine ⟨failures 1 (staying (Text.lines text)) results, ?_, ?_, ?_⟩
  · rw [hpasses.length_failures, Summary.after_empty]
  · rw [hpasses.complaints_eq, (onlyNoted_note s _).quietly.complaints_eq]
  · -- each failure is that of a line that was reached, since no line before it has stopped the
    -- script
    intro f hf
    obtain ⟨before, after, first, v, u, hstaying, hnumber, hbefore, hfront, hline⟩ :=
      hpasses.exists_of_mem_failures hf
    obtain ⟨rest, hlines⟩ := Request.exists_append_of_staying_eq hstaying
    have hall : settings.stopOnError = true →
        ∀ result ∈ first, LineResult.isFailed result = false :=
      fun hstop result hresult => hsucceeded hstop result (hfront.subset hresult)
    rw [hnumber, Nat.add_comm]
    exact ⟨u, .intro hread hlines hbefore hall hline⟩

/-- A script that stops has reported nothing, and ends with the fault of a line that is executed and
fails, unless it cannot be read. -/
theorem exists_failure_of_executeScript {text : String} (hread : files path = .ok text)
    (h : s.executeScript limit settings files path = some (.error fault, t)) :
    t.complaints = s.complaints ∧ ∃ f : Failure,
      fault = scriptFault path f.number f.line f.fault ∧
      LineFails limit settings files path s f.number f.line f.fault t := by
  rcases executeScript_eq_error_iff.mp h with
    hunread | @⟨_, line, before, _, _, inner, _, _, _, hstop, hread', hsplit, hpasses, hall, hline⟩
  · simp [hread] at hunread
  · have hfails : LineFails limit settings files path s (before.length + 1) line inner t :=
      .intro hread' hsplit hpasses (fun _ => hall) hline
    refine ⟨(hfails.stops hstop).2.complaints_eq, ⟨before.length + 1, line, inner⟩, ?_, hfails⟩
    rw [Nat.add_comm]

/-- **Line breaks and line numbers of a script.** Whether its line breaks are written with a
carriage return, and whether there is one in the end, makes no difference to what becomes of a
script: it comes to the same end or to none, with the same summary or the same fault, and leaves the
same session behind. Whatever is reported of a script names its path, a line number and an input.
The number is one more than the line feeds before a line that fails, and the input is that line
without the white space at both ends. A script that gets through has reported so many failures as it
counts; one that stops has reported none, and its own fault is the report. -/
theorem script_line_breaks_and_numbers (limit : Nat) (settings : Settings) (s : Session)
    {files : FileReader} {path text : String} (hread : files path = .ok text) :
    (∀ files' : FileReader,
      files' path = .ok (Text.withReturns text) ∨ files' path = .ok (text ++ "\n") →
        s.executeScript limit settings files' path = s.executeScript limit settings files path) ∧
    (∀ summary t, s.executeScript limit settings files path = some (.ok summary, t) →
      ∃ failed : List Failure, summary.failed = failed.length ∧
        (t.complaints = s.complaints ++ failed.flatMap fun f => (f.fault.located
          ⟨some path, some f.number, some (Text.trim f.line)⟩).reportLines) ∧
        ∀ f ∈ failed, (∃ u, LineFails limit settings files path s f.number f.line f.fault u) ∧
          ∃ before, Text.LineAt text before f.line ∧
            f.number = 1 + before.toList.count '\n') ∧
    (∀ fault t, s.executeScript limit settings files path = some (.error fault, t) →
      t.complaints = s.complaints ∧
      ∃ f : Failure,
        fault = f.fault.located ⟨some path, some f.number, some (Text.trim f.line)⟩ ∧
        LineFails limit settings files path s f.number f.line f.fault t ∧
        ∃ before, Text.LineAt text before f.line ∧
          f.number = 1 + before.toList.count '\n') := by
  refine ⟨?_, ?_, ?_⟩
  · -- in both cases the other text has lines that the script cannot tell apart from these
    intro files' hread'
    rw [executeScript_of_readable hread]
    rcases hread' with hreturns | hfeed
    · rw [executeScript_of_readable hreturns]
      exact executeLines_eq_of_sameLines (Text.sameLines_withReturns text) _ _ _ _
    · rw [executeScript_of_readable hfeed]
      exact executeLines_eq_of_sameLines (Text.sameLines_append_feed text) _ _ _ _
  · intro summary t h
    obtain ⟨failed, hcount, hcomplaints, hfails⟩ := exists_failures_of_executeScript h
    refine ⟨failed, hcount, hcomplaints, ?_⟩
    intro f hf
    obtain ⟨u, hline⟩ := hfails f hf
    exact ⟨⟨u, hline⟩, hline.exists_lineAt hread⟩
  · intro fault t h
    obtain ⟨hcomplaints, f, hfault, hline⟩ := exists_failure_of_executeScript hread h
    exact ⟨hcomplaints, f, hfault, hline, hline.exists_lineAt hread⟩

/-- Two lines that are skipped before one that fails. -/
def flight : String := "\n# off\n  fly away \n"

/-- The third line is reported, whichever line breaks there are. -/
theorem script_line_breaks_and_numbers_flight :
    let s := Demo.register (.start .empty)
    let files : FileReader := fun _ => .ok flight
    files "a.kl" = .ok flight ∧
    (s.executeScript 2 {} (fun _ => .ok (Text.withReturns flight)) "a.kl" =
      s.executeScript 2 {} files "a.kl") ∧
    (∀ summary t, s.executeScript 2 {} files "a.kl" = some (.ok summary, t) →
      ∃ failed : List Failure, summary.failed = failed.length ∧
        (t.complaints = s.complaints ++ failed.flatMap fun f => (f.fault.located
          ⟨some "a.kl", some f.number, some (Text.trim f.line)⟩).reportLines) ∧
        ∀ f ∈ failed, (∃ u, LineFails 2 {} files "a.kl" s f.number f.line f.fault u) ∧
          ∃ before, Text.LineAt flight before f.line ∧
            f.number = 1 + before.toList.count '\n') := by
  intro s files
  have hread : files "a.kl" = .ok flight := rfl
  exact ⟨hread, (script_line_breaks_and_numbers 2 {} s hread).1 _ (.inl rfl),
    (script_line_breaks_and_numbers 2 {} s hread).2.1⟩

example : ((Demo.register (.start .empty)).executeScript 2 {} (fun _ => .ok flight) "a.kl").map
      (fun r => (r.1.toOption, r.2.complaints)) =
    some (some ⟨0, 1⟩, ["\x1b[31mError: command not found: fly\x1b[0m\n",
      "  at a.kl:3: `fly away`\n"]) := by decide +kernel

end Session

end CommandShell
