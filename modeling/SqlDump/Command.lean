import SqlDump.Command.Clean
import SqlDump.Command.Scan

/-!
# Commands

The first argument names a command, and the other ones are its command line.
-/

namespace SqlDump

inductive Command where
  | clean (arguments : CleanArguments)
  | scan (arguments : ScanArguments)
  | version
deriving DecidableEq, Repr

namespace Command

def programName : Text := "sql-cleaner".toList

def programVersion : Text := "0.4.0".toList

def usage : Text :=
  "Usage: ".toList ++ programName ++ " <clean|scan> [OPTIONS] <FILE>".toList

def readWith (specs : List OptionSpec) (ofLine? : CommandLine → Option β)
    (arguments : List Text) : Except Refusal β :=
  match CommandLine.parse specs arguments with
  | .error refusal => .error refusal
  | .ok line =>
      match ofLine? line with
      | some read => .ok read
      | none => .error .usage

def begins (mark : String) (argument : Text) : Bool :=
  (Text.after? mark.toList argument).isSome

/-- A letter of a group of letters counts before those behind it are read. -/
def parse : List Text → Except Refusal Command
  | [] => .error .usage
  | name :: arguments =>
      if name = "clean".toList then
        (readWith CleanArguments.specs CleanArguments.ofLine? arguments).map
          .clean
      else if name = "scan".toList then
        (readWith ScanArguments.specs ScanArguments.ofLine? arguments).map .scan
      else if name = "--version".toList ∨ begins "-V" name then .ok .version
      else if name = "--help".toList ∨ name = "help".toList ∨
        begins "-h" name then
        .error .helpWanted
      else .error .usage

variable {m : Type → Type} [Monad m] [Host m]

def run (arguments : List Text) : m Transcript := do
  match parse arguments with
  | .ok (.clean arguments) => arguments.run Codec.refusing
  | .ok (.scan arguments) => arguments.run
  | .ok .version =>
      return .printed (programName ++ [' '] ++ programVersion ++ ['\n'])
  | .error .helpWanted => return .printed (usage ++ ['\n'])
  | .error .usage => return .refused usage

end Command

end SqlDump
