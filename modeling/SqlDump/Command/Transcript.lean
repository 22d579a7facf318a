import SqlDump.Json

/-!
# Transcripts

What a command prints and how it ends.
-/

namespace SqlDump

structure Transcript where
  exitCode : Nat := 0
  output : Text := []
  /-- Text on standard error. -/
  log : Text := []
deriving DecidableEq, Repr

namespace Transcript

/-- Ends like the second part. -/
def append (first second : Transcript) : Transcript where
  exitCode := second.exitCode
  output := first.output ++ second.output
  log := first.log ++ second.log

instance : Append Transcript := ⟨append⟩

def printed (text : Text) : Transcript where
  output := text

def logged (text : Text) : Transcript where
  log := text

def jsonLines (value : JsonValue) : Text :=
  value.pretty ++ ['\n']

def failed (message : Text) : Transcript where
  exitCode := 1
  log := message ++ ['\n']

def refused (message : Text) : Transcript where
  exitCode := 2
  log := message ++ ['\n']

end Transcript

end SqlDump
