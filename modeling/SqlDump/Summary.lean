import SqlDump.Json
import SqlDump.Session

/-!
# Summaries of a run

What a run counted, as JSON and as lines of text.
-/

namespace SqlDump

namespace Warning

def json : Warning → JsonValue
  | .unterminatedComment version line =>
      .object [("kind".toList, .text "unterminated_comment".toList),
        ("version".toList, JsonValue.ofOption .number version),
          ("line".toList, .number line)]
  | .unterminatedStatement preview =>
      .object [("kind".toList, .text "unterminated_statement".toList),
        ("preview".toList, .text preview)]
  | .missingTable schema table =>
      .object [("kind".toList, .text "missing_table_metadata".toList),
        ("schema".toList,
          JsonValue.ofOption .text schema), ("table".toList, .text table)]
  | .incompleteTable schema table missing =>
      .object [("kind".toList, .text "incomplete_table_metadata".toList),
        ("schema".toList, .text schema), ("table".toList, .text table),
        ("missing".toList, .array (missing.map .text))]
  | .ambiguousTable table candidates =>
      .object [("kind".toList, .text "ambiguous_table".toList),
        ("table".toList, .text table),
        ("candidates".toList, .number candidates)]
  | .missingMetadataFile path =>
      .object [("kind".toList, .text "metadata_file_missing".toList),
        ("path".toList, .text path)]

end Warning

namespace CleanStats

def json (stats : CleanStats) : JsonValue :=
  .object [("bytes_read".toList, .number stats.bytesRead),
    ("bytes_written".toList, .number stats.bytesWritten),
    ("lines".toList, .number stats.lines),
    ("statements".toList, .number stats.statements),
    ("comments_unwrapped".toList, .number stats.unwrapped),
    ("comments_kept".toList, .number stats.kept),
    ("semicolons_reattached".toList, .number stats.reattached),
    ("tables_augmented".toList, .number stats.counts.tablesAugmented),
    ("time_zones_normalized".toList, .number stats.counts.timeZonesNormalized),
    ("drops_suppressed".toList, .number stats.counts.dropsSuppressed),
    ("values_sanitized".toList, .number stats.counts.valuesSanitized),
    ("cancelled".toList, .bool stats.cancelled),
    ("warnings".toList, .array (stats.warnings.map Warning.json)),
    ("warnings_truncated".toList, .number stats.warningsTruncated)]

def megabyte : Nat := 1048576

def megabytes (bytes : Nat) : Text :=
  (Decimal.ofQuotient 2 bytes megabyte).text ++ " MB".toList

def countLine (name : String) (count : Nat) : Text :=
  "  ".toList ++ name.toList ++ ": ".toList ++ Text.ofNat count ++ ['\n']

/-- The counts of a run that took so many milliseconds. -/
def text (stats : CleanStats) (elapsed : Nat) : Text :=
  "\nClean Statistics:\n".toList ++
    countLine "Lines read" stats.lines ++
    countLine "Statements" stats.statements ++
    countLine "Comments unwrapped" stats.unwrapped ++
    countLine "Comments kept" stats.kept ++
    countLine "Semicolons reattached" stats.reattached ++
    countLine "Tables augmented" stats.counts.tablesAugmented ++
    countLine "Time zones normalized" stats.counts.timeZonesNormalized ++
    countLine "DROP statements removed" stats.counts.dropsSuppressed ++
    countLine "Values sanitized" stats.counts.valuesSanitized ++
    "  Bytes: ".toList ++ megabytes stats.bytesRead ++ " in, ".toList ++
    megabytes stats.bytesWritten ++ " out\n  Elapsed time: ".toList ++
    (Decimal.text ⟨elapsed, 3⟩) ++ "s\n".toList

end CleanStats

end SqlDump
