import SqlDump.Json
import SqlDump.Line
import SqlDump.Unwrap

/-!
# Reports on guards

How many guards of each version a dump holds, without a change of the dump.
-/

namespace SqlDump

structure GuardReport where
  threshold : Nat
  lines : Nat := 0
  total : Nat := 0
  wouldUnwrap : Nat := 0
  wouldKeep : Nat := 0
  /-- Numbers of guards by version, in the order of the versions. -/
  versions : List (Nat × Nat) := []
  unterminated : Option OpenComment := none
deriving DecidableEq, Repr

namespace GuardReport

def countVersion (version : Nat) : List (Nat × Nat) → List (Nat × Nat)
  | [] => [(version, 1)]
  | (known, count) :: rest =>
      if version < known then (version, 1) :: (known, count) :: rest
      else if version = known then (known, count + 1) :: rest
      else (known, count) :: countVersion version rest

def record (report : GuardReport) : Segment → GuardReport
  | .text _ => report
  | .guard guard _ =>
      let counted :=
        { report with
          total := report.total + 1
          versions := countVersion guard.version report.versions }
      if shouldUnwrap guard.version report.threshold then
        { counted with wouldUnwrap := report.wouldUnwrap + 1 }
      else { counted with wouldKeep := report.wouldKeep + 1 }

def recordAll (report : GuardReport) (segments : List Segment) : GuardReport :=
  segments.foldl record report

end GuardReport

/-- A report that grows while a dump is read in chunks of any size. -/
structure GuardSurvey where
  lines : LineAssembler := {}
  scanner : Scanner := {}
  report : GuardReport
deriving DecidableEq, Repr

namespace GuardSurvey

def feed (survey : GuardSurvey) (text : Text) : GuardSurvey :=
  let (scanner, segments) := survey.scanner.feed text
  { survey with scanner := scanner, report := survey.report.recordAll segments }

def feedLines (survey : GuardSurvey) : Option Text → GuardSurvey
  | none => survey
  | some text => survey.feed text

def push (survey : GuardSurvey) (chunk : Bytes) : GuardSurvey :=
  let (lines, complete) := survey.lines.push chunk
  { survey with lines := lines }.feedLines complete

def finish (survey : GuardSurvey) : GuardReport :=
  let (lines, lastLine) := survey.lines.finish
  let survey := { survey with lines := lines }.feedLines lastLine
  let (_, segments, openComment) := survey.scanner.finish
  { survey.report.recordAll segments with
    lines := lines.lines
    unterminated := openComment }

end GuardSurvey

namespace GuardReport

def ofChunks (threshold : Nat) (chunks : List Bytes) : GuardReport :=
  (chunks.foldl GuardSurvey.push { report :=
    { threshold := threshold } }).finish

def ofBytes (threshold : Nat) (content : Bytes) : GuardReport :=
  ofChunks threshold (blocksOf 65536 content)

def versionOf? : CommentKind → Option Nat
  | .guard version => some version
  | .plain => none

def members (report : GuardReport) : List (Text × JsonValue) :=
  [("version_threshold".toList, .number report.threshold),
    ("lines".toList, .number report.lines),
    ("total_comments".toList, .number report.total),
    ("would_unwrap".toList, .number report.wouldUnwrap),
    ("would_keep".toList, .number report.wouldKeep),
    ("versions".toList,
      .object (report.versions.map fun (version, count) =>
        (Text.ofNat version, .number count)))] ++
  JsonValue.optionalMember "unterminated" (fun (openComment : OpenComment) =>
    .array [.object
      (JsonValue.optionalMember "version" .number
        (versionOf? openComment.kind) ++
        [("line".toList, .number openComment.line)])]) report.unterminated

def versionLine (threshold version count : Nat) : Text :=
  "    ".toList ++ Text.padStart 6 (Text.ofNat version) ++ "  ".toList ++
    Text.padStart 8 (Text.ofNat count) ++ "  ".toList ++
    (if shouldUnwrap version threshold then "unwrap\n".toList
      else "keep\n".toList)

def unterminatedLine (openComment : OpenComment) : Text :=
  (match openComment.kind with
    | .guard version =>
        "\n  ⚠ Unterminated versioned comment ".toList ++ Text.ofNat version
    | .plain => "\n  ⚠ Unterminated comment".toList) ++
  " opened at line ".toList ++ Text.ofNat openComment.line ++ ['\n']

def text (report : GuardReport) (path : Text) : Text :=
  path ++ ":\n  Lines: ".toList ++ Text.ofNat report.lines ++
    "\n  Versioned comments: ".toList ++ Text.ofNat report.total ++
    "\n  Would unwrap (< ".toList ++ Text.ofNat report.threshold ++
    "): ".toList ++ Text.ofNat report.wouldUnwrap ++
    "\n  Would keep: ".toList ++ Text.ofNat report.wouldKeep ++ ['\n'] ++
    (if report.versions = [] then []
      else
        "\n  By version:\n".toList ++
          report.versions.flatMap fun (version, count) =>
            versionLine report.threshold version count) ++
    (report.unterminated.toList.flatMap unterminatedLine) ++ ['\n']

end GuardReport

end SqlDump
