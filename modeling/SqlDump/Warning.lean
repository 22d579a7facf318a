import SqlDump.Text.Basic

/-!
# Warnings

What a run reports without stopping.  The log keeps different warnings up to a
limit and counts those beyond it.
-/

namespace SqlDump

inductive Warning where
  /-- A comment was open at the end of the input; a plain comment has no
  version. -/
  | unterminatedComment (version : Option Nat) (line : Nat)
  | unterminatedStatement (preview : Text)
  | missingTable (schema : Option Text) (table : Text)
  | incompleteTable (schema table : Text) (missing : List Text)
  | ambiguousTable (table : Text) (candidates : Nat)
  | missingMetadataFile (path : Text)
deriving DecidableEq, Repr

namespace Warning

def message : Warning → Text
  | .unterminatedComment (some version) line =>
      "Unterminated versioned comment /*!".toList ++ Text.ofNat version ++
        " opened on line ".toList ++ Text.ofNat line ++ "; flushed as-is".toList
  | .unterminatedComment none line =>
      "Unterminated comment opened on line ".toList ++ Text.ofNat line ++
        "; flushed as-is".toList
  | .unterminatedStatement preview =>
      "Input ended inside a statement (".toList ++ preview ++ ")".toList
  | .missingTable (some schema) table =>
      "No table metadata for ".toList ++ schema ++ ".".toList ++ table
  | .missingTable none table =>
      "No table metadata for ".toList ++ table ++ " (no schema selected)".toList
  | .incompleteTable schema table missing =>
      "Incomplete table metadata for ".toList ++ schema ++ ".".toList ++
        table ++ " (missing ".toList ++ Text.join ", ".toList missing ++
        ")".toList
  | .ambiguousTable table candidates =>
      "Table ".toList ++ table ++ " exists in ".toList ++
        Text.ofNat candidates ++
        " schemas; use --default-schema to pick one".toList
  | .missingMetadataFile path =>
      "Table metadata file not found: ".toList ++ path

/-- The list of warnings at the end of a run; `truncated` of them were not
kept. -/
def summary (warnings : List Warning) (truncated : Nat) : Text :=
  if warnings = [] then []
  else
    "\nWarnings (".toList ++ Text.ofNat warnings.length ++ "):\n".toList ++
      warnings.flatMap (fun warning =>
        "  ⚠ ".toList ++ warning.message ++ ['\n']) ++
      (if 0 < truncated then
        "  ... (".toList ++ Text.ofNat truncated ++
        " additional warnings truncated)\n".toList
      else [])

end Warning

structure WarningLog where
  limit : Nat := 100
  kept : List Warning := []
  dropped : Nat := 0
deriving DecidableEq, Repr

namespace WarningLog

def add (log : WarningLog) (warning : Warning) : WarningLog :=
  if warning ∈ log.kept then log
  else if log.kept.length < log.limit then
    { log with kept := log.kept ++ [warning] }
  else { log with dropped := log.dropped + 1 }

def addAll (log : WarningLog) (warnings : List Warning) : WarningLog :=
  warnings.foldl add log

end WarningLog

end SqlDump
