import SqlDump.Command.Inputs
import SqlDump.Command.Settings
import SqlDump.Command.Transcript
import SqlDump.Compression.Content
import SqlDump.Report

/-!
# The scanning command

Reports on the guards of every input.  The first input that cannot be read ends
the command.
-/

namespace SqlDump

structure ScanArguments where
  input : Text
  threshold : Nat := defaultThreshold
  json : Bool := false
deriving DecidableEq, Repr

namespace ScanArguments

def specs : List OptionSpec :=
  [{ name := "version-threshold".toList, takesValue := true },
    { name := "json".toList }]

def ofLine? (line : CommandLine) : Option ScanArguments := do
  if line.hasRepeats then none
  let input ← line.operand?
  let input ← pathArgument? input
  let threshold ← fitting versionArgument? (line.value? "version-threshold")
  return {
    input := input
    threshold := threshold.getD defaultThreshold
    json := line.isSet "json" }

def reportJson (path : Text) (report : GuardReport) : JsonValue :=
  .object (
    [("input_file".toList, .text path),
      ("compression".toList,
        .text (Compression.ofPath path).name)] ++ report.members)

variable {m : Type → Type} [Monad m] [Host m]

def report (arguments : ScanArguments) (path : Text) :
    m (Except FileError GuardReport) := do
  let stored ← Host.content path
  return (stored.bind (Compression.ofPath path).content).map
    (GuardReport.ofBytes arguments.threshold)

/-- The reports up to the first input that cannot be read. -/
def reports (arguments : ScanArguments) :
    List Text → m (List (Text × GuardReport) × Option FileError)
  | [] => return ([], none)
  | path :: paths => do
      match ← arguments.report path with
      | .error failure => return ([], some failure)
      | .ok first =>
          let (others, failure) ← arguments.reports paths
          return ((path, first) :: others, failure)

def run (arguments : ScanArguments) : m Transcript := do
  match ← Inputs.resolve arguments.input with
  | .error error => return .failed error.message
  | .ok inputs =>
      let (found, failure) ← arguments.reports inputs.paths
      let texts := found.flatMap fun (path, report) => report.text path
      let values := found.map fun (path, report) => reportJson path report
      match failure with
      | some failure =>
          return .printed (if arguments.json then [] else texts) ++
            .failed failure.message
      | none =>
          if arguments.json then
            match inputs with
            | .single _ => return .printed (values.flatMap Transcript.jsonLines)
            | .batch _ => return .printed (Transcript.jsonLines (.array values))
          else return .printed texts

end ScanArguments

end SqlDump
