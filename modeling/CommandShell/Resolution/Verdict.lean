import CommandShell.Catalog
import CommandShell.Resolution.Contest
import CommandShell.Resolution.Ranking

/-!
# Verdicts

Which command a row of words calls, and with which arguments. The first word is the keyword, and the
commands of that keyword hold a contest for the others. Of those that take every word, the one that
goes before all others is called; if there is none, the call is refused and those that no other goes
before are named.

Finding a verdict changes nothing: it is a function of the catalog and the words.

Main definitions:

* `Catalog.judge`: the verdict, with the notes taken on the way to it;
* `Catalog.resolve`: the call, or what is wrong with the words.
-/

namespace CommandShell

/-- What became of a row of words, and the notes taken meanwhile. -/
structure Verdict where
  notes : List Note
  result : Except Fault Invocation

namespace Contest

/-- Whether a candidate goes before another. -/
def beats (c d : Candidate) : Bool := Ranking.outranks c.command.params d.command.params

/-- The candidates that have taken every word. -/
def finalists (contest : Contest) : List Candidate :=
  contest.candidates.filter Candidate.isExhausted

/-- The notes about the candidates that have not. -/
def surpluses (contest : Contest) : List Note :=
  (contest.candidates.filter fun c => !c.isExhausted).map Candidate.surplus

/-- The verdict for one candidate. -/
def award (winner : Candidate) : Verdict :=
  ⟨[.resolved winner.command.signature], .ok winner.invocation⟩

/-- The verdict over the finalists of a contest. -/
def decideAmong (keyword : String) (furthest : Nat) : List Candidate → Verdict
  | [] => ⟨[.noneSurvived keyword furthest], .error (.of (.noViableOverload keyword furthest))⟩
  | [winner] => award winner
  | finalists =>
    match Ranking.leader? beats finalists with
    | some winner => award winner
    | none =>
      let signatures := (Ranking.contenders beats finalists).map fun c => c.command.signature
      ⟨[.ambiguous keyword signatures.length],
        .error (.of (.ambiguousCommand keyword signatures))⟩

/-- The verdict of a settled contest. -/
def verdict (keyword : String) (contest : Contest) : Verdict :=
  let final := decideAmong keyword contest.furthest contest.finalists
  ⟨contest.notes ++ contest.surpluses ++ final.notes, final.result⟩

end Contest

namespace Catalog

/-- The verdict over some words that begin with a keyword, if these commands have the keyword. -/
def judgeAmong (keyword : String) (tokens : List String) (commands : List Command) : Verdict :=
  let opening := Note.matching keyword tokens.length commands.length
  match (Contest.start tokens commands).settle with
  | .error fault => ⟨[opening], .error fault⟩
  | .ok contest =>
    let verdict := contest.verdict keyword
    ⟨opening :: verdict.notes, verdict.result⟩

/-- The verdict over a row of words. -/
def judge (catalog : Catalog) : List String → Verdict
  | [] => ⟨[], .error (.of .emptyInput)⟩
  | keyword :: words =>
    match catalog.overloads keyword with
    | [] => ⟨[.noneRegistered keyword], .error (.of (.commandNotFound keyword))⟩
    | commands => judgeAmong keyword (keyword :: words) commands

/-- The call that a row of words stands for, or what is wrong with them. -/
def resolve (catalog : Catalog) (tokens : List String) : Except Fault Invocation :=
  (catalog.judge tokens).result

end Catalog

end CommandShell
