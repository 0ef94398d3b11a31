/-!
# Plain text

A text written for a terminal can hold control characters and the sequences of characters that an
escape character begins. Its plain text is what a reader sees of it: everything else, the controls
that lay a text out excepted, is taken out.

The character after the escape character tells which kind of sequence it begins:

* `[`: a control sequence, which a final character ends, one from `@` to `~`;
* `P`: a device control string, which has a header that the same characters end, and then a body;
* `X`, `^`, `_`: a string, which is all body;
* `]`: an operating system command, which a bell ends;
* a blank or one of the marks up to `/`: a sequence that the next letter, digit or other mark ends;
* any other letter, digit or mark: nothing more.

An escape character within a sequence begins another one, and a cancel or substitute character ends
any of them. A body has no other end but the byte `9C`. A text is taken as its bytes, so this byte
can be one of several that encode a character.

Main results:

* `isVisible_of_mem_strip`: nothing but visible characters is left;
* `strip_outside_eq_self`: a text of visible characters stays as it is, so taking the plain text
  twice is taking it once (`plain_plain`).
-/

namespace CommandShell.Text

/-! ## Characters -/

/-- The controls that lay a text out: tab, line feed, form feed and return. -/
def isLayout (c : Char) : Bool := c == '\t' || c == '\n' || c == '\x0c' || c == '\r'

/-- Whether a reader sees a character, if only by where the next one stands. -/
def isVisible (c : Char) : Bool := isLayout c || (0x20 ≤ c.toNat && c.toNat != 0x7F)

/-- The characters from the blank to `/`, which stand before the end of a sequence. -/
def isIntermediate (c : Char) : Bool := 0x20 ≤ c.toNat && c.toNat ≤ 0x2F

/-- The digits and the marks from `:` to `?`, of which parameters are made. -/
def isParameter (c : Char) : Bool := 0x30 ≤ c.toNat && c.toNat ≤ 0x3F

/-- The marks from `<` to `?`, which can only begin parameters. -/
def isParameterMark (c : Char) : Bool := 0x3C ≤ c.toNat && c.toNat ≤ 0x3F

/-- The characters from `@` to `~`, which end a control sequence. -/
def isFinal (c : Char) : Bool := 0x40 ≤ c.toNat && c.toNat ≤ 0x7E

/-- Whether the string terminator is one of the bytes of a character. -/
def endsBody (c : Char) : Bool := (String.utf8EncodeChar c).contains 0x9C

/-! ## Sequences -/

/-- Where a text stands with regard to its sequences. -/
inductive Stage where
  | outside
  /-- After an escape character. -/
  | escape
  /-- In a sequence that the next parameter or final character ends. -/
  | intermediate
  /-- In a control sequence. -/
  | control
  /-- At the beginning of the header of a device control string. -/
  | header
  /-- In the header, after a parameter. -/
  | headerParameters
  /-- In the header, after an intermediate character. -/
  | headerIntermediate
  /-- In a body, or in a header that makes no sense. -/
  | body
  /-- In an operating system command. -/
  | command
deriving DecidableEq, Repr

namespace Stage

/-- Where the character after an escape character and its sequence leads. -/
def opened (c : Char) : Stage :=
  if c = '[' then .control
  else if c = ']' then .command
  else if c = 'P' then .header
  else if c = 'X' ∨ c = '^' ∨ c = '_' then .body
  else .outside

/-- Where a character leads. One that means nothing where it stands is passed over. -/
def next (stage : Stage) (c : Char) : Stage :=
  if c = '\x1b' then .escape
  else if c = '\x18' ∨ c = '\x1a' then .outside
  else
    match stage with
    | .outside => .outside
    | .escape =>
      if isIntermediate c then .intermediate
      else if isParameter c || isFinal c then opened c else .escape
    | .intermediate => if isParameter c || isFinal c then .outside else .intermediate
    | .control => if isFinal c then .outside else .control
    | .header =>
      if isIntermediate c then .headerIntermediate
      else if isParameter c then .headerParameters
      else if isFinal c then .body else .header
    | .headerParameters =>
      if isIntermediate c then .headerIntermediate
      else if isParameterMark c || isFinal c then .body else .headerParameters
    | .headerIntermediate => if isParameter c || isFinal c then .body else .headerIntermediate
    | .body => if endsBody c then .outside else .body
    | .command => if c = '\x07' then .outside else .command

/-- Whether a visible character is part of the plain text and not of a sequence. The controls that
lay a text out also do so from within a sequence that has neither header nor body. -/
def shows : Stage → Char → Bool
  | .outside, _ => true
  | .escape, c | .intermediate, c | .control, c => isLayout c
  | _, _ => false

end Stage

/-! ## What is left -/

/-- What is left of some characters, where `shown` says whether the character before them was left.
Once a character is left, so are those after it up to the next that is not visible. If that happens
within a sequence, the sequence goes on there, unless a character outside ASCII has ended it. -/
def strip : Bool → Stage → List Char → List Char
  | _, _, [] => []
  | shown, stage, c :: cs =>
    if (shown || stage.shows c) && isVisible c then
      c :: strip true (if c.toNat < 0x80 then stage else .outside) cs
    else strip false (stage.next c) cs

/-- The plain text of a text. -/
def plain (text : String) : String := String.ofList (strip false .outside text.toList)

/-- Colours are taken out, a bell is, and what is no sequence stays. -/
example : plain "a\x1b[1;31mred\x1b[0m\x07 [0m" = "ared [0m" := by decide

/-- A line break lays out the text from within a sequence, and the sequence goes on at the next
control that does not. -/
example : plain "a\x1b[1\nb\x01mc" = "a\nbc" := by decide

/-- A command without a bell takes everything with it, but a final character ends a control sequence
also after one that means nothing in it. -/
example : plain "a\x1b]0;b\nc" = "a" ∧ plain "a\x1b[éxb" = "ab" := by decide

theorem isVisible_of_mem_strip {c : Char} {shown : Bool} {stage : Stage} {cs : List Char}
    (h : c ∈ strip shown stage cs) : isVisible c = true := by
  induction cs generalizing shown stage with
  | nil => simp [strip] at h
  | cons d cs ih =>
    unfold strip at h
    split at h
    · rename_i hd
      rcases List.mem_cons.mp h with rfl | h
      · exact (Bool.and_eq_true_iff.mp hd).2
      · exact ih h
    · exact ih h

theorem strip_outside_eq_self {shown : Bool} {cs : List Char}
    (h : ∀ c ∈ cs, isVisible c = true) : strip shown .outside cs = cs := by
  induction cs generalizing shown with
  | nil => rfl
  | cons c cs ih =>
    have hc := h c List.mem_cons_self
    have hcs := fun d hd => h d (List.mem_cons_of_mem c hd)
    simp [strip, Stage.shows, hc, ih hcs]

theorem plain_plain (text : String) : plain (plain text) = plain text := by
  simp only [plain, String.toList_ofList]
  rw [strip_outside_eq_self fun _ => isVisible_of_mem_strip]

end CommandShell.Text
