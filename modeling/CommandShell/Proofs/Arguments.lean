import CommandShell.CommandLine.Options
import Mathlib.Data.List.Basic

/-!
# Arguments piece by piece

The arguments of the program are read one after the other, but what they ask for together can be
told from what its pieces ask for. Every argument is an item of its own, but for the option for the
prompt, which takes the argument behind it along, whatever that looks like. So arguments can be cut
anywhere except between that option and its value, and what the two parts ask for is merged.

Of the order of the items little can be seen: the paths of scripts stay in their order, the last
prompt is the one that counts, and the first item that makes no sense is reported. A flag is asked
for or it is not.

Main definitions:

* `Options.merge`: what is asked for by some arguments and then by others;
* `Options.items`: the items that arguments consist of.

Main results:

* `Options.parse_eq_ofItems`: what arguments ask for, in terms of their items;
* `Options.parse_congr`: what can be seen of the items;
* `Options.parse_append_of_ok` and its companions: arguments in two parts;
* `Options.arguments_compose`: all of it.
-/

namespace CommandShell.Options

/-! ## Merging -/

/-- What is asked for by some arguments and then by others. -/
def merge (o later : Options) : Options where
  files := o.files ++ later.files
  help := o.help || later.help
  version := o.version || later.version
  batch := o.batch || later.batch
  verbose := o.verbose || later.verbose
  noBanner := o.noBanner || later.noBanner
  stopOnError := o.stopOnError || later.stopOnError
  traceMatch := o.traceMatch || later.traceMatch
  prompt := later.prompt.or o.prompt

variable {o p : Options} {f g : Flag}

@[simp] theorem empty_merge (o : Options) : merge {} o = o := by
  cases o
  simp [merge]

@[simp] theorem merge_empty (o : Options) : o.merge {} = o := by
  cases o
  simp [merge]

theorem merge_assoc (o p q : Options) : (o.merge p).merge q = o.merge (p.merge q) := by
  simp [merge, Bool.or_assoc, List.append_assoc, Option.or_assoc]

/-! ## Items -/

/-- What one argument asks for, or the option for the prompt with its value. -/
inductive Item where
  | flag (flag : Flag)
  | file (path : String)
  | prompt (value : String)
  /-- There is no sense in it. -/
  | wrong (e : UsageError)
deriving DecidableEq, Repr

namespace Item

/-- The path of a script. -/
def file? : Item → Option String
  | .file path => some path
  | _ => none

/-- The value of a prompt. -/
def prompt? : Item → Option String
  | .prompt value => some value
  | _ => none

/-- Whether an item is a flag. -/
def isFlag : Item → Bool
  | .flag _ => true
  | _ => false

/-- What is wrong with an item. -/
def error? : Item → Option UsageError
  | .wrong e => some e
  | _ => none

end Item

/-- The item that an argument is by itself, unless it is the option for the prompt. -/
def itemOf (argument : String) : Item :=
  match Flag.ofArgument? argument with
  | some flag => .flag flag
  | none =>
    if argument.toList.head? = some '-' then .wrong (.unknownOption argument) else .file argument

/-- The items that arguments consist of, also behind one that makes no sense. -/
def items : List String → List Item
  | [] => []
  | argument :: rest =>
    if argument = "--prompt" then
      match rest with
      | [] => [.wrong .promptWithoutValue]
      | value :: rest => .prompt value :: items rest
    else itemOf argument :: items rest

/-- What items ask for that make sense. -/
def collect (is : List Item) : Options where
  files := is.filterMap Item.file?
  help := decide (.flag .help ∈ is)
  version := decide (.flag .version ∈ is)
  batch := decide (.flag .batch ∈ is)
  verbose := decide (.flag .verbose ∈ is)
  noBanner := decide (.flag .noBanner ∈ is)
  stopOnError := decide (.flag .stopOnError ∈ is)
  traceMatch := decide (.flag .traceMatch ∈ is)
  prompt := (is.filterMap Item.prompt?).getLast?

/-- What items ask for, or what is wrong with the first that makes no sense. -/
def ofItems (is : List Item) : Except UsageError Options :=
  match is.filterMap Item.error? with
  | [] => .ok (collect is)
  | e :: _ => .error e

variable {a b front rest : List String} {argument value x y : String} {is js : List Item}
  {e : UsageError}

theorem collect_append (is js : List Item) :
    collect (is ++ js) = (collect is).merge (collect js) := by
  simp [collect, merge, List.getLast?_append]

/-- What items ask for is merged, unless there is no sense in the first of them. -/
theorem ofItems_append (is js : List Item) :
    ofItems (is ++ js) = (ofItems is).bind fun o => (ofItems js).map o.merge := by
  unfold ofItems
  rw [List.filterMap_append]
  -- what is wrong with the first part comes before anything that is wrong with the second
  cases his : is.filterMap Item.error? with
  | cons e es => rfl
  | nil =>
    cases hjs : js.filterMap Item.error? with
    | cons e es => rfl
    | nil =>
      show Except.ok (collect (is ++ js)) = .ok ((collect is).merge (collect js))
      rw [collect_append]

theorem ofItems_cons (i : Item) (is : List Item) :
    ofItems (i :: is) = (ofItems [i]).bind fun o => (ofItems is).map o.merge :=
  ofItems_append [i] is

/-! ## Reading items -/

/-- Merging twice is merging what is merged. -/
theorem map_merge_merge (o p : Options) (result : Except UsageError Options) :
    (result.map p.merge).map o.merge = result.map (o.merge p).merge := by
  cases result with
  | error e => rfl
  | ok q =>
    show Except.ok (o.merge (p.merge q)) = .ok ((o.merge p).merge q)
    rw [merge_assoc]

theorem set_eq_merge (o : Options) (f : Flag) : o.set f = o.merge (collect [.flag f]) := by
  cases f <;> simp [set, merge, collect, Item.file?, Item.prompt?]

theorem merge_collect_file (o : Options) (path : String) :
    o.merge (collect [.file path]) = { o with files := o.files ++ [path] } := by
  simp [merge, collect, Item.file?, Item.prompt?]

/-- A prompt that is merged takes the place of an earlier one. -/
theorem merge_collect_prompt (o : Options) (value : String) :
    o.merge (collect [.prompt value]) = { o with prompt := some value } := by
  simp [merge, collect, Item.file?, Item.prompt?]

/-- An argument that is an item by itself is read as that item. -/
theorem parseFrom_cons (h : argument ≠ "--prompt") (o : Options) (rest : List String) :
    parseFrom o (argument :: rest) =
      (ofItems [itemOf argument]).bind fun p => parseFrom (o.merge p) rest := by
  rw [parseFrom.eq_def o (argument :: rest), itemOf]
  simp only [if_neg h]
  -- a flag, an option that is not known, or the path of a script
  cases Flag.ofArgument? argument with
  | some f =>
    show parseFrom (o.set f) rest = parseFrom (o.merge (collect [.flag f])) rest
    rw [set_eq_merge]
  | none =>
    by_cases hdash : argument.toList.head? = some '-'
    · simp only [if_pos hdash]
      rfl
    · simp only [if_neg hdash]
      show _ = parseFrom (o.merge (collect [.file argument])) rest
      rw [merge_collect_file]

/-- The option for the prompt takes the argument behind it along. -/
theorem parseFrom_prompt (o : Options) (value : String) (rest : List String) :
    parseFrom o ("--prompt" :: value :: rest) =
      parseFrom (o.merge (collect [.prompt value])) rest := by
  rw [parseFrom, if_pos rfl, merge_collect_prompt]

/-- **What arguments ask for**, in terms of their items, when something was asked for before. -/
theorem parseFrom_eq_ofItems (o : Options) (arguments : List String) :
    parseFrom o arguments = (ofItems (items arguments)).map o.merge := by
  -- along the items, with what has been asked for before them
  fun_induction items arguments generalizing o with
  | case1 =>
    show Except.ok o = .ok (o.merge {})
    rw [merge_empty]
  | case2 => rfl
  | case3 value rest ih =>
    rw [parseFrom_prompt, ih, ← map_merge_merge, ofItems_cons]
    rfl
  | case4 argument rest h ih =>
    rw [parseFrom_cons h, ofItems_cons (itemOf argument) (items rest)]
    cases ofItems [itemOf argument] with
    | error e => rfl
    | ok p =>
      show parseFrom (o.merge p) rest = ((ofItems (items rest)).map p.merge).map o.merge
      rw [ih, map_merge_merge]

/-- What arguments ask for is what their items ask for. -/
theorem parse_eq_ofItems (arguments : List String) :
    parse arguments = ofItems (items arguments) := by
  rw [parse, parseFrom_eq_ofItems]
  cases ofItems (items arguments) with
  | error e => rfl
  | ok o => exact congrArg Except.ok (empty_merge o)

/-- **What can be seen of the items**: the scripts in their order, the prompts in theirs, what is
wrong, and which flags there are. -/
theorem parse_congr
    (hfiles : (items a).filterMap Item.file? = (items b).filterMap Item.file?)
    (hprompts : (items a).filterMap Item.prompt? = (items b).filterMap Item.prompt?)
    (herrors : (items a).filterMap Item.error? = (items b).filterMap Item.error?)
    (hflags : ∀ f, Item.flag f ∈ items a ↔ Item.flag f ∈ items b) : parse a = parse b := by
  have hcollect : collect (items a) = collect (items b) := by
    unfold collect
    simp only [hfiles, hprompts, hflags]
  rw [parse_eq_ofItems, parse_eq_ofItems, ofItems, ofItems, herrors, hcollect]

/-! ## Two parts -/

/-- Arguments that do not end between the option for the prompt and its value. -/
def Closed (arguments : List String) : Prop := Item.wrong .promptWithoutValue ∉ items arguments

theorem closed_nil : Closed [] := by simp [Closed, items]

theorem closed_prompt_iff : Closed ("--prompt" :: value :: rest) ↔ Closed rest := by
  simp [Closed, items]

theorem items_cons (h : argument ≠ "--prompt") (rest : List String) :
    items (argument :: rest) = itemOf argument :: items rest := by
  rw [items.eq_def]
  simp only [if_neg h]

/-- An argument that is an item of its own does not wait for a value. -/
theorem itemOf_ne_promptWithoutValue (argument : String) :
    itemOf argument ≠ .wrong .promptWithoutValue := by
  unfold itemOf
  cases Flag.ofArgument? argument with
  | some f => simp
  | none => by_cases h : argument.toList.head? = some '-' <;> simp [h]

theorem closed_cons_iff (h : argument ≠ "--prompt") : Closed (argument :: rest) ↔ Closed rest := by
  have hne := (itemOf_ne_promptWithoutValue argument).symm
  simp [Closed, items_cons h, hne]

/-- Arguments that do not end so are closed, but for one option. -/
theorem closed_or_dangling (a : List String) :
    Closed a ∨ ∃ front, Closed front ∧ a = front ++ ["--prompt"] := by
  -- along the items, so that the value of a prompt is passed over together with its option
  fun_induction items a with
  | case1 => exact .inl closed_nil
  | case2 => exact .inr ⟨[], closed_nil, rfl⟩
  | case3 value rest ih =>
    rcases ih with hclosed | ⟨front, hfront, rfl⟩
    · exact .inl (closed_prompt_iff.mpr hclosed)
    · exact .inr ⟨"--prompt" :: value :: front, closed_prompt_iff.mpr hfront, rfl⟩
  | case4 argument rest h ih =>
    rcases ih with hclosed | ⟨front, hfront, rfl⟩
    · exact .inl ((closed_cons_iff h).mpr hclosed)
    · exact .inr ⟨argument :: front, (closed_cons_iff h).mpr hfront, rfl⟩

/-- Behind closed arguments, others have the same items as by themselves. -/
theorem items_append (h : Closed a) (b : List String) : items (a ++ b) = items a ++ items b := by
  -- along the items of the first part; it does not end in the middle of one
  fun_induction items a with
  | case1 => rfl
  | case2 => simp [Closed, items] at h
  | case3 value rest ih =>
    have hrest := ih (closed_prompt_iff.mp h)
    simpa [items] using hrest
  | case4 argument rest hargument ih =>
    have hrest := ih ((closed_cons_iff hargument).mp h)
    rw [List.cons_append, items_cons hargument, hrest]
    rfl

/-- **Closed arguments ask for what they ask for by themselves**, whatever follows. -/
theorem parse_append_of_closed (h : Closed a) (b : List String) :
    parse (a ++ b) = (parse a).bind fun o => (parse b).map o.merge := by
  rw [parse_eq_ofItems, items_append h, ofItems_append, ← parse_eq_ofItems, ← parse_eq_ofItems]

/-- What is reported is what is wrong with some item. -/
theorem wrong_mem_items (h : parse a = .error e) : Item.wrong e ∈ items a := by
  rw [parse_eq_ofItems, ofItems] at h
  split at h
  · simp at h
  · next e' es herrors =>
    obtain rfl := Except.error.inj h
    have hmem : e' ∈ (items a).filterMap Item.error? := by simp [herrors]
    obtain ⟨i, hi, herror⟩ := List.mem_filterMap.mp hmem
    cases i with
    | wrong e =>
      obtain rfl := Option.some.inj herror
      exact hi
    | flag | file | prompt => simp [Item.error?] at herror

/-- An option for the prompt at the end is at fault, if nothing before it is. -/
theorem parse_concat_prompt (h : Closed front) :
    parse (front ++ ["--prompt"]) = (parse front).bind fun _ => .error .promptWithoutValue :=
  parse_append_of_closed h ["--prompt"]

/-- Arguments that make sense are closed. -/
theorem closed_of_parse_eq_ok (h : parse a = .ok o) : Closed a := by
  rcases closed_or_dangling a with hclosed | ⟨front, hfront, rfl⟩
  · exact hclosed
  · rw [parse_concat_prompt hfront] at h
    cases hparse : parse front with
    | ok p => simp [hparse, Except.bind] at h
    | error e => simp [hparse, Except.bind] at h

/-- Arguments that make sense are merged with those behind them. -/
theorem parse_append_of_ok (h : parse a = .ok o) (b : List String) :
    parse (a ++ b) = (parse b).map o.merge := by
  rw [parse_append_of_closed (closed_of_parse_eq_ok h), h]
  rfl

/-- The first option that is unknown is reported, whatever follows. -/
theorem parse_append_of_unknownOption (h : parse a = .error (.unknownOption argument))
    (b : List String) : parse (a ++ b) = .error (.unknownOption argument) := by
  rcases closed_or_dangling a with hclosed | ⟨front, hfront, rfl⟩
  · rw [parse_append_of_closed hclosed, h]
    rfl
  · rw [parse_concat_prompt hfront] at h
    rw [List.append_assoc, parse_append_of_closed hfront]
    cases hparse : parse front with
    | ok p => simp [hparse, Except.bind] at h
    | error e =>
      rw [hparse] at h
      exact h

/-- An option for the prompt that has no value takes the first argument of what follows. -/
theorem exists_dangling_of_promptWithoutValue (h : parse a = .error .promptWithoutValue) :
    ∃ front o, a = front ++ ["--prompt"] ∧ parse front = .ok o ∧ ∀ value rest,
      parse (a ++ value :: rest) = (parse rest).map { o with prompt := some value }.merge := by
  rcases closed_or_dangling a with hclosed | ⟨front, hfront, rfl⟩
  · exact absurd (wrong_mem_items h) hclosed
  · cases hparse : parse front with
    | error e =>
      rw [parse_concat_prompt hfront, hparse] at h
      obtain rfl := Except.error.inj h
      exact absurd (wrong_mem_items hparse) hfront
    | ok o =>
      refine ⟨front, o, rfl, hparse, fun value rest => ?_⟩
      -- behind the closed part, the option has a value now
      have hrest : parse ("--prompt" :: value :: rest) =
          (parse rest).map (collect [.prompt value]).merge := by
        rw [parse, parseFrom_prompt, empty_merge, parseFrom_eq_ofItems, ← parse_eq_ofItems]
      rw [List.append_assoc, parse_append_of_ok hparse, List.singleton_append, hrest,
        map_merge_merge, merge_collect_prompt]

/-! ## The order of items -/

theorem ne_prompt_of_flag (h : Flag.ofArgument? x = some f) : x ≠ "--prompt" := by
  rintro rfl
  simp [Flag.ofArgument?] at h

theorem items_cons_flag (h : Flag.ofArgument? x = some f) (rest : List String) :
    items (x :: rest) = .flag f :: items rest := by
  rw [items_cons (ne_prompt_of_flag h), itemOf, h]

/-- No kind of item but flags is seen where flags are. -/
theorem filterMap_filter_isFlag {α : Type} {kind : Item → Option α}
    (h : ∀ f, kind (.flag f) = none) (is : List Item) :
    (is.filter fun i => !i.isFlag).filterMap kind = is.filterMap kind := by
  rw [List.filterMap_filter]
  refine List.filterMap_congr fun i _ => ?_
  cases i with
  | flag f => exact (h f).symm
  | file | prompt | wrong => rfl

/-- Where flags stand among the items, and how often, makes no difference. -/
theorem parse_congr_of_flags
    (hothers : (items a).filter (fun i => !i.isFlag) = (items b).filter fun i => !i.isFlag)
    (hflags : ∀ f, Item.flag f ∈ items a ↔ Item.flag f ∈ items b) : parse a = parse b := by
  have hkind : ∀ {α : Type} {kind : Item → Option α}, (∀ f, kind (.flag f) = none) →
      (items a).filterMap kind = (items b).filterMap kind := by
    intro α kind hnone
    rw [← filterMap_filter_isFlag hnone, hothers, filterMap_filter_isFlag hnone]
  exact parse_congr (hkind fun _ => rfl) (hkind fun _ => rfl) (hkind fun _ => rfl) hflags

/-- A flag and an item next to it can change places. -/
theorem parse_swap {i : Item} (ha : items a = .flag f :: i :: is)
    (hb : items b = i :: .flag f :: is) : parse a = parse b := by
  refine parse_congr_of_flags ?_ fun g => ?_
  · rw [ha, hb]
    simp [List.filter_cons, Item.isFlag]
  · rw [ha, hb]
    simp only [List.mem_cons]
    exact or_left_comm

/-- What follows in the one and the other way is all that matters behind arguments that do not wait
for a value. -/
theorem parse_append_congr (h : parse a ≠ .error .promptWithoutValue)
    {b c : List String} (hbc : parse b = parse c) : parse (a ++ b) = parse (a ++ c) := by
  cases hparse : parse a with
  | ok o => rw [parse_append_of_ok hparse, parse_append_of_ok hparse, hbc]
  | error e =>
    cases e with
    | promptWithoutValue => exact absurd hparse h
    | unknownOption argument =>
      rw [parse_append_of_unknownOption hparse, parse_append_of_unknownOption hparse]

/-- A flag that is asked for again changes nothing. -/
theorem parse_repeat (hx : Flag.ofArgument? x = some f) (hy : Flag.ofArgument? y = some f)
    (hb : parse b ≠ .error .promptWithoutValue) (rest : List String) :
    parse (x :: (b ++ y :: rest)) = parse (x :: (b ++ rest)) := by
  cases hparse : parse b with
  | ok o =>
    have hclosed := closed_of_parse_eq_ok hparse
    have hitems : items (x :: (b ++ y :: rest)) =
        .flag f :: (items b ++ .flag f :: items rest) := by
      rw [items_cons_flag hx, items_append hclosed, items_cons_flag hy]
    have hitems' : items (x :: (b ++ rest)) = .flag f :: (items b ++ items rest) := by
      rw [items_cons_flag hx, items_append hclosed]
    -- the items are the same but for a flag that is among them anyway
    refine parse_congr_of_flags ?_ fun g => ?_
    · rw [hitems, hitems']
      simp [Item.isFlag]
    · rw [hitems, hitems']
      by_cases hg : g = f <;> simp [hg]
  | error e =>
    cases e with
    | promptWithoutValue => exact absurd hparse hb
    | unknownOption argument =>
      -- what is wrong with the middle part comes before the flag is asked for again
      have hsame : parse (b ++ y :: rest) = parse (b ++ rest) := by
        rw [parse_append_of_unknownOption hparse, parse_append_of_unknownOption hparse]
      have hflag : parse [x] = .ok (collect [.flag f]) := by
        rw [parse_eq_ofItems, items_cons_flag hx]
        rfl
      have hne : parse [x] ≠ .error .promptWithoutValue := by simp [hflag]
      exact parse_append_congr hne hsame

/-- **Arguments compose.** They ask for what their items ask for, one item by one, or the first item
that makes no sense is reported. If the first of two parts makes sense, both together ask for what
they ask for one after the other, or the same is wrong with both together as with the second part.
If an option in the first part is unknown, it is the one that is reported of both together. If the
first part is at fault for ending in the option for the prompt, the option takes the first argument
of the second part along, whatever it is, and all else is read behind that. A flag that is not taken
for a value can change places with what is next to it, and if the same flag has been asked for
before, it can be left out. And no more can be seen of all arguments than which scripts, which
prompts and which mistakes there are, each in their order, and which flags. -/
theorem arguments_compose (a b : List String) :
    parse a = ofItems (items a) ∧
    (∀ o, parse a = .ok o → parse (a ++ b) = (parse b).map o.merge) ∧
    (∀ argument, parse a = .error (.unknownOption argument) →
      parse (a ++ b) = .error (.unknownOption argument)) ∧
    (parse a = .error .promptWithoutValue → ∃ front o, a = front ++ ["--prompt"] ∧
      parse front = .ok o ∧ ∀ value rest, b = value :: rest →
        parse (a ++ b) = (parse rest).map { o with prompt := some value }.merge) ∧
    (parse a ≠ .error .promptWithoutValue → ∀ x f, Flag.ofArgument? x = some f →
      (∀ y, y ≠ "--prompt" → parse (a ++ x :: y :: b) = parse (a ++ y :: x :: b)) ∧
      (∀ value, parse (a ++ x :: "--prompt" :: value :: b) =
        parse (a ++ "--prompt" :: value :: x :: b)) ∧
      (parse b ≠ .error .promptWithoutValue → ∀ y rest, Flag.ofArgument? y = some f →
        parse (a ++ x :: (b ++ y :: rest)) = parse (a ++ x :: (b ++ rest)))) ∧
    ((items a).filterMap Item.file? = (items b).filterMap Item.file? →
      (items a).filterMap Item.prompt? = (items b).filterMap Item.prompt? →
      (items a).filterMap Item.error? = (items b).filterMap Item.error? →
      (∀ f, Item.flag f ∈ items a ↔ Item.flag f ∈ items b) → parse a = parse b) := by
  refine ⟨parse_eq_ofItems a, fun o h => parse_append_of_ok h b,
    fun argument h => parse_append_of_unknownOption h b, ?_, ?_, parse_congr⟩
  · intro h
    obtain ⟨front, o, rfl, hfront, hrest⟩ := exists_dangling_of_promptWithoutValue h
    refine ⟨front, o, rfl, hfront, ?_⟩
    rintro value rest rfl
    exact hrest value rest
  · -- a flag and the item next to it are exchanged, or it is left out where it is repeated
    intro h x f hx
    refine ⟨?_, ?_, ?_⟩
    · intro y hy
      have hfirst : items (x :: y :: b) = .flag f :: itemOf y :: items b := by
        rw [items_cons_flag hx, items_cons hy]
      have hsecond : items (y :: x :: b) = itemOf y :: .flag f :: items b := by
        rw [items_cons hy, items_cons_flag hx]
      exact parse_append_congr h (parse_swap hfirst hsecond)
    · intro value
      have hfirst : items (x :: "--prompt" :: value :: b) =
          .flag f :: .prompt value :: items b := by
        rw [items_cons_flag hx]
        rfl
      have hsecond : items ("--prompt" :: value :: x :: b) =
          .prompt value :: .flag f :: items b := by
        rw [← items_cons_flag hx]
        rfl
      exact parse_append_congr h (parse_swap hfirst hsecond)
    · intro hb y rest hy
      exact parse_append_congr h (parse_repeat hx hy hb rest)

/-- What looks like an option is the prompt here, and one flag is spelled in two ways. -/
example : parse ["-b", "--prompt", "-h", "a.kl", "--batch"] =
    .ok { files := ["a.kl"], batch := true, prompt := some "-h" } := by decide

end CommandShell.Options
