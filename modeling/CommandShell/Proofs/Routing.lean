import CommandShell.Proofs.Passage

/-!
# Which lines the console takes itself

A line is sorted by its words alone, so commands that are registered under the words of the console
or under words that begin a comment make no difference: the console takes its lines before the
catalog is asked. But it takes them in a few exact shapes only, and every other line, be its first
word one of the console's own, is dispatched as if there were no console at all.

Main definitions:

* `Request.Skipped`: the words of a line that is passed over;
* `Request.Own`: the words of a line that the console takes itself.

Main results:

* `Request.ofTokens_eq_command_iff`: the lines that are left to the catalog;
* `Session.executeLine_of_command`: these are dispatched, and a note is taken of the call;
* `Session.exists_dispatchLine_eq_commandNotFound_iff`: when a keyword is not known to the
  catalog;
* `Session.line_is_routed`: what becomes of every line.
-/

namespace CommandShell

/-! ## Sorting words -/

namespace Request

variable {tokens words : List String} {first keyword : String} {rest : List String}

/-- The words of a line that is passed over: there are none, or the first one begins a comment. -/
def Skipped (tokens : List String) : Prop :=
  tokens = [] ∨ ∃ first, tokens.head? = some first ∧ first.toList.head? = some '#'

/-- The words of a line that the console takes itself. -/
def Own (tokens : List String) : Prop :=
  tokens = ["exit"] ∨ tokens = ["quit"] ∨ tokens = ["help"] ∨ ∃ keyword, tokens = ["help", keyword]

/-- Words of a line that is passed over ask for nothing. -/
theorem ofTokens_of_skipped (h : Skipped tokens) : ofTokens tokens = .skip := by
  rcases h with rfl | ⟨first, hfirst, hsign⟩
  · rfl
  · obtain ⟨rest, rfl⟩ := List.head?_eq_some_iff.mp hfirst
    have hcomment : isComment first = true := by simp [isComment, hsign]
    unfold ofTokens
    exact if_pos hcomment

/-- **The lines that are left to the catalog** are all that are neither passed over nor taken by the
console itself, and they are left to it with all their words. -/
theorem ofTokens_eq_command_iff :
    ofTokens tokens = .command words ↔ ¬ Skipped tokens ∧ ¬ Own tokens ∧ words = tokens := by
  -- by the branches that sort the words: six of them ask for something else, and are excluded
  fun_cases ofTokens tokens with
  | case1 => simp [Skipped]
  | case2 first rest hcomment =>
    have hsign : first.toList.head? = some '#' := by simpa [isComment] using hcomment
    have hskipped : Skipped (first :: rest) := .inr ⟨first, rfl, hsign⟩
    simp [hskipped]
  | case7 first rest hexit hquit hhelp hhelpOn hcomment =>
    have hread : ¬ Skipped (first :: rest) := by
      rintro (hnil | ⟨first', hfirst, hsign⟩)
      · simp at hnil
      · obtain rfl := Option.some.inj hfirst
        exact hcomment (by simp [isComment, hsign])
    have hother : ¬ Own (first :: rest) := by
      rintro (h | h | h | ⟨keyword, h⟩) <;> obtain ⟨hfirst, hrest⟩ := List.cons.inj h
      · exact hexit hfirst hrest
      · exact hquit hfirst hrest
      · exact hhelp hfirst hrest
      · exact hhelpOn keyword hfirst hrest
    simp [hread, hother, eq_comm]
  | _ => simp [Own]

/-- What is left to the catalog has a word. -/
theorem ne_nil_of_ofTokens (h : ofTokens tokens = .command words) : words ≠ [] := by
  obtain ⟨hread, -, rfl⟩ := ofTokens_eq_command_iff.mp h
  exact fun hnil => hread (.inl hnil)

end Request

/-! ## Keywords that are not known -/

namespace Catalog

variable {catalog : Catalog} {keyword : String}

theorem knows_eq_false_iff : catalog.knows keyword = false ↔ catalog.overloads keyword = [] := by
  rw [overloads_eq_nil_iff, knows, List.any_eq_false]
  simp

/-- A keyword that is not known has no signatures, and any other one has. -/
theorem usage_eq_nil_iff : catalog.usage keyword = [] ↔ catalog.knows keyword = false := by
  rw [knows_eq_false_iff, usage, List.map_eq_nil_iff]

end Catalog

namespace Session

open Request (Skipped Own)

variable {limit : Nat} {line keyword : String} {tokens : List String} {fault : Fault}
  {s t u : Session}

/-- Words are dispatched in vain exactly if they stand for no call, whatever the limit. -/
theorem exists_dispatch_eq_error_iff :
    (∃ t, s.dispatch limit tokens = some (.error fault, t)) ↔
      s.catalog.resolve tokens = .error fault := by
  cases hresolve : s.catalog.resolve tokens with
  | error fault' =>
    rw [dispatch_of_error hresolve]
    simp
  | ok call =>
    rw [dispatch_of_ok hresolve]
    simp

/-- A line is dispatched in vain because its first word is not known exactly if no command has that
word as its keyword. -/
theorem exists_dispatchLine_eq_commandNotFound_iff
    (hfirst : (Text.words line).head? = some keyword) :
    (∃ t, s.dispatchLine limit line = some (.error (.of (.commandNotFound keyword)), t)) ↔
      s.catalog.knows keyword = false := by
  have hresolve : s.catalog.resolve (Text.words line) = .error (.of (.commandNotFound keyword)) ↔
      (Text.words line).head? = some keyword ∧ s.catalog.overloads keyword = [] :=
    Catalog.resolve_eq_commandNotFound_iff
  unfold dispatchLine
  rw [exists_dispatch_eq_error_iff, hresolve, Catalog.knows_eq_false_iff]
  exact and_iff_right hfirst

/-! ## Lines that are left to the catalog -/

/-- The session after a note was taken of a call, if there was one. -/
def noteCall (s : Session) : Except Fault Invocation → Session
  | .ok call => s.note (.executed call.command.signature)
  | .error _ => s

theorem onlyNoted_noteCall (s : Session) (result : Except Fault Invocation) :
    s.OnlyNoted (s.noteCall result) := by
  cases result with
  | error fault => exact .refl s
  | ok call => exact onlyNoted_note s _

/-- **A line that is left to the catalog is dispatched**, and a note is taken of the call. -/
theorem executeLine_of_command (limit : Nat) (s : Session)
    (h : Request.ofLine line = .command tokens) :
    s.executeLine limit line = (s.dispatch limit tokens).map fun r =>
      (r.1.map LineOutcome.dispatched, r.2.noteCall r.1) := by
  rw [executeLine, h, fulfil]
  -- a call that never ends, words that are refused, and a call that was made
  rcases s.dispatch limit tokens with - | ⟨fault | call, t⟩
  · rfl
  · rfl
  · rfl

/-- Help on a keyword shows what has the keyword, and fails if nothing has. -/
theorem executeLine_of_help (limit : Nat) (s : Session)
    (h : Text.words line = ["help", keyword]) :
    s.executeLine limit line =
      if s.catalog.knows keyword then some (.ok (.help (s.catalog.usage keyword)), s)
      else some (.error (.of (.commandNotFound keyword)), s) := by
  have hrequest : Request.ofLine line = .helpOn keyword := by
    rw [Request.ofLine, h]
    rfl
  rw [executeLine, hrequest, fulfil]
  cases hknows : s.catalog.knows keyword with
  | false =>
    rw [Catalog.usage_eq_nil_iff.mpr hknows]
    rfl
  | true =>
    have husage : s.catalog.usage keyword ≠ [] := by
      intro hnil
      simp [Catalog.usage_eq_nil_iff.mp hnil] at hknows
    obtain ⟨signature, others, hcons⟩ := List.exists_cons_of_ne_nil husage
    rw [hcons]
    rfl

/-- No line fails for having no words. -/
theorem cause_ne_emptyInput_of_executeLine
    (h : s.executeLine limit line = some (.error fault, t)) : fault.cause ≠ .emptyInput := by
  rcases fault_of_executeLine h with ⟨keyword, -, rfl⟩ | ⟨tokens, hrequest, hresolve⟩
  · simp [Fault.of]
  · -- the catalog is asked about the words of the line, and there are some
    have hne : tokens ≠ [] := Request.ne_nil_of_ofTokens hrequest
    rcases Catalog.eq_of_resolve_eq_error hresolve with rfl | ⟨_, rfl⟩ | ⟨_, _, rfl⟩ | ⟨_, _, rfl⟩
    · exact absurd (Catalog.resolve_eq_emptyInput_iff.mp hresolve) hne
    · simp [Fault.of]
    · simp [Fault.of]
    · simp [Fault.of]

/-- **What becomes of every line**, whatever commands are known. A line that is passed over, one
that leaves and one that asks for help leave the session as it is. Help shows the signatures of all
commands in the order of their registration, or of those that have a keyword; if there are none, it
fails as every line with that keyword in front fails when it is dispatched. Every other line comes
to what it comes to when it is dispatched, with the same calls, the same commands and the same
memory behind it, and a note at most in addition. No line fails for having no words, or by a
defect. -/
theorem line_is_routed (limit : Nat) (line : String) (s : Session) :
    let tokens := Text.words line
    (Skipped tokens → s.executeLine limit line = some (.ok .skipped, s)) ∧
    (tokens = ["exit"] ∨ tokens = ["quit"] → s.executeLine limit line = some (.ok .left, s)) ∧
    (tokens = ["help"] → s.executeLine limit line =
      some (.ok (.help (s.catalog.commands.map Command.signature)), s)) ∧
    (∀ keyword, tokens = ["help", keyword] →
      (s.catalog.knows keyword = true → s.executeLine limit line =
        some (.ok (.help ((s.catalog.overloads keyword).map Command.signature)), s)) ∧
      (s.catalog.knows keyword = false →
        s.executeLine limit line = some (.error (.of (.commandNotFound keyword)), s)) ∧
      ∀ line', (Text.words line').head? = some keyword →
        ((∃ t, s.dispatchLine limit line' =
            some (.error (.of (.commandNotFound keyword)), t)) ↔
          s.catalog.knows keyword = false)) ∧
    (¬ Skipped tokens → ¬ Own tokens →
      (s.dispatchLine limit line = none ∧ s.executeLine limit line = none) ∨
      ∃ result t u, s.dispatchLine limit line = some (result, t) ∧
        s.executeLine limit line = some (result.map LineOutcome.dispatched, u) ∧
        t.OnlyNoted u) ∧
    ∀ fault t, s.executeLine limit line = some (.error fault, t) →
      fault.cause ≠ .emptyInput ∧
      ∀ param position, fault.cause ≠ .contractViolation param position := by
  intro tokens
  refine ⟨?_, executeLine_of_leaves, ?_, ?_, ?_, ?_⟩
  · intro hskipped
    have hrequest : Request.ofLine line = .skip := Request.ofTokens_of_skipped hskipped
    rw [executeLine, hrequest]
    rfl
  · intro (htokens : Text.words line = ["help"])
    have hrequest : Request.ofLine line = .help := by
      rw [Request.ofLine, htokens]
      rfl
    rw [executeLine, hrequest]
    rfl
  · intro keyword htokens
    have hhelp := executeLine_of_help limit s htokens
    refine ⟨?_, ?_, fun line' => exists_dispatchLine_eq_commandNotFound_iff⟩
    · intro hknows
      rw [hhelp, if_pos hknows]
      rfl
    · intro hunknown
      rw [hhelp, hunknown]
      rfl
  · intro hread hother
    have hrequest : Request.ofLine line = .command tokens :=
      Request.ofTokens_eq_command_iff.mpr ⟨hread, hother, rfl⟩
    have hexecute := executeLine_of_command limit s hrequest
    -- executing the line is dispatching its words, with a note behind that
    cases hdispatch : s.dispatch limit tokens with
    | none =>
      rw [hdispatch] at hexecute
      exact .inl ⟨hdispatch, hexecute⟩
    | some r =>
      obtain ⟨result, t⟩ := r
      rw [hdispatch] at hexecute
      exact .inr ⟨result, t, t.noteCall result, hdispatch, hexecute, onlyNoted_noteCall t result⟩
  · intro fault t hfailed
    refine ⟨cause_ne_emptyInput_of_executeLine hfailed, ?_⟩
    obtain ⟨cause, rfl, hmistake⟩ := exists_cause_of_executeLine hfailed
    rintro param position rfl
    simp [Cause.isInternal] at hmistake

/-- A command that is registered under a word of the console is called, but not by that word
alone. -/
example :
    let leave : Command := ⟨"exit", [.scalar (.str "when")], fun _ => [.print "bye"]⟩
    let s := Session.start ⟨[leave]⟩
    (s.executeLine 2 "exit now").map (fun r => r.2.output) = some "bye" ∧
      (s.executeLine 2 " exit ").map (fun r => r.2.output) = some "" := by
  decide +kernel

end Session

end CommandShell
