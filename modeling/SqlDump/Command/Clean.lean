import SqlDump.Command.Inputs
import SqlDump.Command.Settings
import SqlDump.Command.Transcript
import SqlDump.Summary

/-!
# The cleaning command

A single input is cleaned to a file or to standard output.  A batch is cleaned
into a directory; files that fail are listed at the end, and the other ones are
cleaned all the same.
-/

namespace SqlDump

structure CleanedFile where
  input : Text
  output : Option Text
  dryRun : Bool
  /-- Milliseconds that the cleaning took. -/
  elapsed : Nat
  timed : Bool := false
  stats : CleanStats
deriving DecidableEq, Repr

namespace CleanedFile

/-- Megabytes read in a second, if there was time to measure. -/
def speed? (file : CleanedFile) : Option Decimal :=
  if file.timed ∧ 0 < file.elapsed then
    some (Decimal.ofQuotient 3 (file.stats.bytesRead * 1000)
      (CleanStats.megabyte * file.elapsed))
  else none

def json (file : CleanedFile) : JsonValue :=
  .object (
    [("input_file".toList, .text file.input)] ++
      JsonValue.optionalMember "output_file" .text file.output ++
      [("compression".toList, .text (Compression.ofPath file.input).name),
        ("dry_run".toList, .bool file.dryRun),
        ("elapsed_secs".toList, .decimal ⟨file.elapsed, 3⟩)] ++
      JsonValue.optionalMember "throughput_mb_per_sec" .decimal file.speed? ++
      [("statistics".toList, file.stats.json)])

def logLines (file : CleanedFile) : Text :=
  let warnings := file.stats.warnings.length
  "  ".toList ++ CleanStats.megabytes file.stats.bytesRead ++ " → ".toList ++
    Text.ofNat file.stats.unwrapped ++ " unwrapped, ".toList ++
    Text.ofNat file.stats.kept ++ " kept, ".toList ++
    Text.ofNat file.stats.counts.tablesAugmented ++
    " tables augmented".toList ++
    (if warnings = 0 then []
      else " (".toList ++ Text.ofNat warnings ++ " warnings)".toList) ++
    ['\n'] ++
    (if file.dryRun then []
      else "  → ".toList ++ file.output.getD [] ++ ['\n']) ++ ['\n']

end CleanedFile

/-- What became of the files of a batch. -/
structure BatchResult where
  cleaned : List CleanedFile := []
  failures : List (Text × FileError) := []
  log : Text := []
deriving DecidableEq, Repr

namespace CleanArguments

def dryRunNote : Text :=
  "\n(Dry run - no output written)\n".toList

def horizontalRule : Text :=
  List.replicate 54 '━' ++ ['\n']

def singleLog (arguments : CleanArguments) (file : CleanedFile) : Text :=
  (if arguments.progress || arguments.dryRun then file.stats.text file.elapsed
    else []) ++
    Warning.summary file.stats.warnings file.stats.warningsTruncated ++
    (if arguments.dryRun then dryRunNote else [])

/-- The summary at the end of the log of a batch. -/
def batchSummary (arguments : CleanArguments) (total : Nat)
    (result : BatchResult) : Text :=
  horizontalRule ++ "Clean Summary:\n".toList ++
    CleanStats.countLine "Total files" total ++
    CleanStats.countLine "Succeeded" result.cleaned.length ++
    CleanStats.countLine "Failed" result.failures.length ++
    (if arguments.dryRun then dryRunNote else [])

def failureList (failures : List (Text × FileError)) : Text :=
  "\nFailed files:\n".toList ++
    failures.flatMap fun (path, failure) =>
      "  - ".toList ++ path ++ ": ".toList ++ failure.message ++ ['\n']

variable {m : Type → Type} [Monad m] [Host m]

def runJob (codec : Codec) (job : Job) : m (JobResult Rat × Nat) := do
  let start ← Host.clock
  let result ← job.run codec fun _ _ => false
  return (result, (← Host.clock) - start)

def runSingle (codec : Codec) (arguments : CleanArguments)
    (settings : Settings) :
    m Transcript := do
  let job := settings.job arguments.input arguments.output arguments.dryRun
  let (result, elapsed) ← runJob codec job
  let printed := Transcript.printed (job.printed result)
  match result.outcome with
  | .error failure => return printed ++ .failed failure.message
  | .ok stats =>
      let file : CleanedFile :=
        { input := arguments.input
          output := arguments.output
          dryRun := arguments.dryRun
          elapsed := elapsed
          timed := true
          stats := stats }
      if arguments.json then
        let lines := Transcript.jsonLines file.json
        if arguments.output = none ∧ !arguments.dryRun then
          return printed ++ .logged lines
        else return printed ++ .printed lines
      else return printed ++ .logged (arguments.singleLog file)

def positionLine (arguments : CleanArguments) (index total : Nat)
    (input : Text) : Text :=
  if arguments.json then []
  else
    ['['] ++ Text.ofNat (index + 1) ++ ['/'] ++ Text.ofNat total ++
    "] Cleaning: ".toList ++
      input ++ ['\n']

/-- Clean the inputs of a batch from the given index on. -/
def runFiles (codec : Codec) (arguments : CleanArguments) (settings : Settings)
    (directory : Text) (total : Nat) (result : BatchResult) (index : Nat) :
    List Text → m BatchResult
  | [] => return result
  | input :: inputs => do
      let output := Inputs.outputPath directory index input
      let begun := result.log ++ arguments.positionLine index total input
      let (done, elapsed) ←
          runJob codec (settings.job input (some output) arguments.dryRun)
      match done.outcome with
      | .ok stats =>
          let file : CleanedFile :=
            { input := input
              output := if arguments.dryRun then none else some output
              dryRun := arguments.dryRun
              elapsed := elapsed
              stats := stats }
          runFiles codec arguments settings directory total
            { result with
              cleaned := result.cleaned ++ [file]
              log := if arguments.json then begun else begun ++ file.logLines }
            (index + 1) inputs
      | .error failure =>
          let failed : BatchResult :=
            { result with
              failures := result.failures ++ [(input, failure)]
              log := begun ++ "  Error: ".toList ++ failure.message ++
                "\n\n".toList }
          if arguments.failFast then return failed
          else
            runFiles codec arguments settings directory total failed (index + 1)
              inputs

def batchTranscript (arguments : CleanArguments) (total : Nat)
    (result : BatchResult) : Transcript :=
  { exitCode := if result.failures = [] then 0 else 1
    output :=
      if arguments.json then
        Transcript.jsonLines (.array (result.cleaned.map CleanedFile.json))
      else []
    log :=
      result.log ++
        (if arguments.json then [] else arguments.batchSummary total result) ++
        (if result.failures = [] then [] else failureList result.failures) }

def runBatch (codec : Codec) (arguments : CleanArguments) (settings : Settings)
    (directory : Text) (inputs : List Text) : m Transcript := do
  let made : Except FileError Unit ←
    if arguments.dryRun then pure (.ok ()) else Host.ensureDirectories directory
  match made with
  | .error failure => return .failed failure.message
  | .ok () =>
      let total := inputs.length
      let opening :=
        if arguments.json then []
        else "Cleaning ".toList ++ Text.ofNat total ++ " files...\n\n".toList
      let result ← arguments.runFiles codec settings directory total { log :=
          opening } 0 inputs
      return arguments.batchTranscript total result

def run (codec : Codec) (arguments : CleanArguments) : m Transcript := do
  match ← Settings.resolve arguments with
  | .error message => return .failed message
  | .ok settings =>
      match ← Inputs.resolve arguments.input with
      | .error error => return .failed error.message
      | .ok (.single _) => arguments.runSingle codec settings
      | .ok (.batch inputs) =>
          match arguments.output with
          | some directory => arguments.runBatch codec settings directory inputs
          | none =>
              return .failed
                ("Output directory required when using glob patterns. " ++
                  "Use --output <dir>").toList

end CleanArguments

end SqlDump
