import CommandShell.Console.Settings

/-!
# Options

What the arguments of the program ask for. Arguments are read from left to right: an option that is
known, the option for the prompt with the argument after it whatever that is, and otherwise the path
of a script. The first argument that makes no sense is the one that is reported.
-/

namespace CommandShell

/-- The options that stand alone. -/
inductive Flag where
  | help
  | version
  | batch
  | verbose
  | noBanner
  | stopOnError
  | traceMatch
deriving DecidableEq, Repr

/-- The option that an argument spells. -/
def Flag.ofArgument? : String → Option Flag
  | "-h" | "--help" => some .help
  | "-V" | "--version" => some .version
  | "-b" | "--batch" => some .batch
  | "-v" | "--verbose" => some .verbose
  | "--no-banner" => some .noBanner
  | "--stop-on-error" => some .stopOnError
  | "--trace-match" => some .traceMatch
  | _ => none

/-- Why the arguments make no sense. -/
inductive UsageError where
  | promptWithoutValue
  | unknownOption (argument : String)
deriving DecidableEq, Repr

/-- The wording of a usage error. -/
def UsageError.message : UsageError → String
  | .promptWithoutValue => "--prompt requires a value"
  | .unknownOption argument => "unknown option: " ++ argument

/-- All that the arguments ask for. -/
structure Options where
  files : List String := []
  help : Bool := false
  version : Bool := false
  batch : Bool := false
  verbose : Bool := false
  noBanner : Bool := false
  stopOnError : Bool := false
  traceMatch : Bool := false
  prompt : Option String := none
deriving DecidableEq, Repr

namespace Options

/-- The options with one more flag. -/
def set (o : Options) : Flag → Options
  | .help => { o with help := true }
  | .version => { o with version := true }
  | .batch => { o with batch := true }
  | .verbose => { o with verbose := true }
  | .noBanner => { o with noBanner := true }
  | .stopOnError => { o with stopOnError := true }
  | .traceMatch => { o with traceMatch := true }

/-- The options after some more arguments. -/
def parseFrom (o : Options) : List String → Except UsageError Options
  | [] => .ok o
  | argument :: rest =>
    if argument = "--prompt" then
      match rest with
      | [] => .error .promptWithoutValue
      | value :: rest => parseFrom { o with prompt := some value } rest
    else
      match Flag.ofArgument? argument with
      | some flag => parseFrom (o.set flag) rest
      | none =>
        if argument.toList.head? = some '-' then .error (.unknownOption argument)
        else parseFrom { o with files := o.files ++ [argument] } rest

/-- The options that some arguments ask for. -/
def parse (arguments : List String) : Except UsageError Options := parseFrom {} arguments

/-- The settings of the console. After scripts it does not introduce itself. -/
def settings (o : Options) : Settings :=
  let preset := if o.batch then Settings.batch else Settings.interactive
  { preset with
    prompt := o.prompt.getD preset.prompt
    banner := preset.banner && !o.noBanner && o.files.isEmpty
    stopOnError := preset.stopOnError || o.stopOnError }

end Options

end CommandShell
