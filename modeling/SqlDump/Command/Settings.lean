import SqlDump.Command.Arguments
import SqlDump.Config
import SqlDump.Job

/-!
# Settings of a cleaning

Arguments of the command line stand above the configuration file; a flag is set
if one of the two sets it.
-/

namespace SqlDump

structure CleanArguments where
  input : Text
  output : Option Text := none
  config : Option Text := none
  threshold : Option Nat := none
  noDrop : Bool := false
  sanitize : Bool := false
  defaultSchema : Option Text := none
  databaseName : Option Text := none
  catalogFile : Option Text := none
  preambleFile : Option Text := none
  collapse : Option Text := none
  progress : Bool := false
  dryRun : Bool := false
  json : Bool := false
  failFast : Bool := false
deriving DecidableEq, Repr

/-- The digits of a number behind its sign, and whether the sign is a minus. -/
def signedDigits : Text → Bool × Text
  | '-' :: digits => (true, digits)
  | '+' :: digits => (false, digits)
  | digits => (false, digits)

/-- A version on the command line; minus zero is zero. -/
def versionArgument? (text : Text) : Option Nat :=
  let (negative, digits) := signedDigits text
  if digits = [] ∨ !digits.all Char.isDigit then none
  else
    let number := digitsValue digits
    if maxVersion < number ∨ negative ∧ 0 < number then none else some number

/-- A value of an option that may be missing, but must fit if it is there. -/
def fitting (read : Text → Option β) : Option Text → Option (Option β)
  | none => some none
  | some text => (read text).map some

def pathArgument? (text : Text) : Option Text :=
  if text = [] then none else some text

namespace CleanArguments

def specs : List OptionSpec :=
  [{ name := "output".toList, letter := some 'o', takesValue := true },
    { name := "config".toList, letter := some 'c', takesValue := true },
    { name := "version-threshold".toList, takesValue := true },
    { name := "no-drop".toList },
    { name := "ddl-sanitize".toList },
    { name := "default-schema".toList, takesValue := true },
    { name := "db-name".toList, secondName := some "db".toList,
      takesValue := true },
    { name := "metadata".toList, letter := some 'm', takesValue := true },
    { name := "prepend-file".toList, takesValue := true },
    { name := "collapse".toList, takesValue := true },
    { name := "progress".toList, letter := some 'p' },
    { name := "dry-run".toList },
    { name := "json".toList },
    { name := "fail-fast".toList }]

def ofLine? (line : CommandLine) : Option CleanArguments := do
  if line.hasRepeats then none
  let input ← line.operand?
  let input ← pathArgument? input
  let output ← fitting pathArgument? (line.value? "output")
  let config ← fitting pathArgument? (line.value? "config")
  let threshold ← fitting versionArgument? (line.value? "version-threshold")
  let catalogFile ← fitting pathArgument? (line.value? "metadata")
  let preambleFile ← fitting pathArgument? (line.value? "prepend-file")
  return {
    input := input
    output := output
    config := config
    threshold := threshold
    noDrop := line.isSet "no-drop"
    sanitize := line.isSet "ddl-sanitize"
    defaultSchema := line.value? "default-schema"
    databaseName := line.value? "db-name"
    catalogFile := catalogFile
    preambleFile := preambleFile
    collapse := line.value? "collapse"
    progress := line.isSet "progress"
    dryRun := line.isSet "dry-run"
    json := line.isSet "json"
    failFast := line.isSet "fail-fast" }

end CleanArguments

/-- What the cleaning of every file needs. -/
structure Settings where
  options : CleanOptions
  databaseName : Option Text := none
  catalogFile : Option Text := none
  preambleFile : Option Text := none
deriving DecidableEq, Repr

namespace Settings

/-- The arguments on top of a configuration; the failure is the message for an
unknown mode. -/
def ofConfig (arguments : CleanArguments) (config : Config) :
    Except Text Settings := do
  let base := config.options
  let collapse ←
    match arguments.collapse with
    | none => .ok base.collapse
    | some name =>
        match Collapse.ofName? name with
        | some mode => .ok mode
        | none => .error (Collapse.unknownMessage name)
  return {
    options := {
      threshold := arguments.threshold.getD base.threshold
      noDrop := base.noDrop || arguments.noDrop
      sanitize := base.sanitize || arguments.sanitize
      defaultSchema := arguments.defaultSchema.orElse fun _ =>
        base.defaultSchema
      collapse := collapse }
    databaseName := arguments.databaseName.orElse fun _ => config.databaseName
    catalogFile := arguments.catalogFile.orElse fun _ => config.catalogFile
    preambleFile := arguments.preambleFile.orElse fun _ => config.preambleFile }

section

variable {m : Type → Type} [Monad m] [Host m]

def resolve (arguments : CleanArguments) : m (Except Text Settings) := do
  match arguments.config with
  | none => return ofConfig arguments {}
  | some path =>
      match ← Config.load path with
      | .ok config => return ofConfig arguments config
      | .error error =>
          return .error ("failed to load config ".toList ++ path ++
            ": ".toList ++ error.message)

end

def job (settings : Settings) (input : Text) (output : Option Text)
    (dryRun : Bool) : Job where
  input := input
  output := output
  dryRun := dryRun
  options := settings.options
  catalogFile := settings.catalogFile
  databaseName := settings.databaseName
  preambleFile := settings.preambleFile

end Settings

end SqlDump
