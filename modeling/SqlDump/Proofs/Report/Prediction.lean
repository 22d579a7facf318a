import Mathlib.Algebra.GroupWithZero.Nat
import SqlDump.Proofs.Pipeline.Log
import SqlDump.Proofs.Session.Streaming
import SqlDump.Proofs.Unwrap.Pieces
import SqlDump.Report

/-!
# A report predicts a cleaning

A report and a session read the same dump, each in chunks of its own, and see
the same guards and the same end.  What the report counts is therefore what the
session takes off and keeps, and the comment that it finds open is the one that
the session warns of.
-/

namespace SqlDump

namespace GuardReport

def recordAtom (report : GuardReport) : Atom → GuardReport
  | .char _ => report
  | .guard guard line => report.record (.guard guard line)

private theorem recordAll_eq_atoms (report : GuardReport)
    (segments : List Segment) :
    report.recordAll segments = (atomsOf segments).foldl recordAtom report := by
  induction segments generalizing report with
  | nil => rfl
  | cons segment segments ih =>
      rw [atomsOf_cons, List.foldl_append, ← ih]
      cases segment with
      | guard guard line => rfl
      | text text =>
          have unchanged : (text.map Atom.char).foldl recordAtom report =
              report := by
            induction text with
            | nil => rfl
            | cons head tail ih => exact ih
          rw [Segment.atoms, unchanged]
          rfl

private theorem recordAll_of_atoms (report : GuardReport)
    {whole first second : List Segment}
    (same : atomsOf whole = atomsOf first ++ atomsOf second) :
    report.recordAll whole = (report.recordAll first).recordAll second := by
  simp only [recordAll_eq_atoms, same, List.foldl_append]

/-- The report on a dump that is there as a whole. -/
def ofWhole (threshold : Nat) (input : Bytes) : GuardReport :=
  let text := Utf8.decodeLossy input
  { recordAll { threshold := threshold } (segmentsOf text) with
    lines := LineAssembler.lineCount input
    unterminated := openCommentOf? text }

end GuardReport

namespace GuardSurvey

/-- The report if `text` is all that the scanner still gets. -/
def concludeText (survey : GuardSurvey) (lines : Nat) (text : Text) :
    GuardReport :=
  let (_, segments, openComment) := (survey.scanner.withMore text).finish
  { survey.report.recordAll segments with
    lines := lines
    unterminated := openComment }

/-- The report if `rest` is all that still comes. -/
def conclude (survey : GuardSurvey) (rest : Bytes) : GuardReport :=
  let bytes := survey.lines.pending ++ rest
  survey.concludeText (survey.lines.lines + LineAssembler.lineCount bytes)
    (Utf8.decodeLossy bytes)

variable (survey : GuardSurvey)

theorem concludeText_feed (lines : Nat) (first second : Text) :
    survey.concludeText lines (first ++ second) =
      (survey.feed first).concludeText lines second := by
  obtain ⟨sameComment, sameAtoms⟩ := survey.scanner.finish_withMore first second
  simp only [concludeText, feed, sameComment,
    survey.report.recordAll_of_atoms sameAtoms]

theorem concludeText_feedLines (lines : Nat) (completed : Option Text)
    (rest : Text) :
    survey.concludeText lines (LineAssembler.textOf completed ++ rest) =
      (survey.feedLines completed).concludeText lines rest := by
  cases completed with
  | none => rfl
  | some text => exact survey.concludeText_feed lines text rest

def withLines (survey : GuardSurvey) (lines : LineAssembler) : GuardSurvey :=
  { survey with lines := lines }

theorem feedLines_withLines (lines : LineAssembler) (completed : Option Text) :
    (survey.withLines lines).feedLines completed =
      (survey.feedLines completed).withLines lines := by
  cases completed <;> rfl

theorem push_eq (chunk : Bytes) :
    survey.push chunk =
      (survey.feedLines (survey.lines.push chunk).2).withLines
        (survey.lines.push chunk).1 :=
  survey.feedLines_withLines _ _

theorem conclude_push (chunk rest : Bytes) (settled : survey.lines.Settled) :
    survey.conclude (chunk ++ rest) = (survey.push chunk).conclude rest ∧
      (survey.push chunk).lines.Settled := by
  obtain ⟨stillSettled, decoded, counted⟩ :=
    survey.lines.push_spec chunk rest settled
  rw [push_eq]
  refine ⟨?_, stillSettled⟩
  simp only [conclude, decoded, counted, concludeText_feedLines]
  rfl

theorem finish_eq (settled : survey.lines.Settled) :
    survey.finish = survey.conclude [] := by
  obtain ⟨decoded, counted⟩ := survey.lines.finish_spec settled
  have lastLine := survey.concludeText_feedLines survey.lines.finish.1.lines
    survey.lines.finish.2 []
  rw [List.append_nil, decoded, counted] at lastLine
  simp only [conclude, List.append_nil, lastLine]
  have kept :=
    survey.feedLines_withLines survey.lines.finish.1 survey.lines.finish.2
  unfold finish
  dsimp only
  rw [show { survey with lines := survey.lines.finish.1 } =
    survey.withLines survey.lines.finish.1 from rfl,
    kept, counted]
  simp [concludeText, withLines, Scanner.withMore]

private theorem finish_foldl_push (chunks : List Bytes)
    (settled : survey.lines.Settled) :
    (chunks.foldl push survey).finish = survey.conclude chunks.flatten := by
  induction chunks generalizing survey with
  | nil => exact survey.finish_eq settled
  | cons chunk chunks ih =>
      obtain ⟨same, stillSettled⟩ :=
        survey.conclude_push chunk chunks.flatten settled
      rw [List.foldl_cons, ih _ stillSettled, List.flatten_cons, same]

end GuardSurvey

/-- However a dump is cut into chunks, the report on it is that on the whole. -/
theorem GuardReport.ofChunks_eq_ofWhole (threshold : Nat)
    (chunks : List Bytes) :
    ofChunks threshold chunks = ofWhole threshold chunks.flatten := by
  have streamed := GuardSurvey.finish_foldl_push
    { report := { threshold := threshold } } chunks rfl
  rw [ofChunks, streamed]
  simp [GuardSurvey.conclude, GuardSurvey.concludeText, ofWhole, segmentsOf,
    openCommentOf?]

/-- The blocks in which a file is read do not matter. -/
theorem GuardReport.ofBytes_eq_ofWhole (threshold : Nat) (content : Bytes) :
    ofBytes threshold content = ofWhole threshold content := by
  rw [ofBytes, ofChunks_eq_ofWhole, flatten_blocksOf (by decide)]

namespace GuardReport

private theorem sum_countVersion (version : Nat) (versions : List (Nat × Nat)) :
    ((countVersion version versions).map Prod.snd).sum =
      (versions.map Prod.snd).sum + 1 := by
  induction versions with
  | nil => rfl
  | cons entry rest ih =>
      obtain ⟨known, count⟩ := entry
      unfold countVersion
      split
      · simp only [List.map_cons, List.sum_cons]
        omega
      · split
        · simp only [List.map_cons, List.sum_cons]
          omega
        · simp only [List.map_cons, List.sum_cons, ih]
          omega

/-- The report counts the guards that the unwrapper took off and those that it
kept. -/
structure Agrees (report : GuardReport) (unwrapper : Unwrapper) : Prop where
  threshold : report.threshold = unwrapper.threshold
  unwrapped : report.wouldUnwrap = unwrapper.unwrapped
  kept : report.wouldKeep = unwrapper.kept
  total : report.total = report.wouldUnwrap + report.wouldKeep
  versions : report.total = (report.versions.map Prod.snd).sum

theorem Agrees.record {report : GuardReport} {unwrapper : Unwrapper}
    (agrees : report.Agrees unwrapper) (segment : Segment) :
    (report.record segment).Agrees (unwrapper.accept segment).1 := by
  obtain ⟨threshold, unwrapped, kept, total, versions⟩ := agrees
  cases segment with
  | text text =>
      obtain ⟨sameThreshold, -, sameUnwrapped, sameKept⟩ :=
        unwrapper.sameMode_acceptText text
      exact ⟨threshold.trans sameThreshold.symm,
        unwrapped.trans sameUnwrapped.symm,
        kept.trans sameKept.symm, total, versions⟩
  | guard guard line =>
      have counted := sum_countVersion guard.version report.versions
      unfold GuardReport.record Unwrapper.accept Unwrapper.acceptGuard
      rw [threshold]
      dsimp only
      split
      · constructor <;> dsimp only <;> omega
      · constructor <;> dsimp only <;> omega

theorem Agrees.recordAll {report : GuardReport} {unwrapper : Unwrapper}
    (agrees : report.Agrees unwrapper) (segments : List Segment) :
    (report.recordAll segments).Agrees (unwrapper.acceptAll segments).1 := by
  induction segments generalizing report unwrapper with
  | nil => exact agrees
  | cons segment segments ih => exact ih (agrees.record segment)

/-- The report names a block that the end of the dump leaves open. -/
def Lists (report : GuardReport) (version : Option Nat) (line : Nat) : Prop :=
  ∃ openComment, report.unterminated = some openComment ∧
    versionOf? openComment.kind = version ∧ openComment.line = line

end GuardReport

theorem Session.kept_finalWarnings (openComment : Option OpenComment)
    (preview : Option Text) :
    (({} : WarningLog).addAll (finalWarnings openComment preview)).kept =
      finalWarnings openComment preview := by
  rcases openComment with - | ⟨kind, line⟩
  · cases preview <;> rfl
  · cases kind <;> cases preview <;>
      simp [finalWarnings, WarningLog.addAll, WarningLog.add]

theorem Session.unterminatedComment_mem_iff (openComment : Option OpenComment)
    (preview : Option Text) (version : Option Nat) (line : Nat) :
    .unterminatedComment version line ∈ finalWarnings openComment preview ↔
      ∃ found, openComment = some found ∧
        GuardReport.versionOf? found.kind = version ∧ found.line = line := by
  rcases openComment with - | ⟨kind, openedAt⟩
  · cases preview <;> simp [finalWarnings]
  · cases kind <;> cases preview <;>
      simp [finalWarnings, GuardReport.versionOf?, eq_comm]

/-- Without metadata nothing but the end of the dump is warned of. -/
theorem warnings_cleanChunks (options : CleanOptions) (chunks : List Bytes) :
    ∃ preview, (cleanChunks options {} chunks).2.warnings =
      Session.finalWarnings (openCommentOf? (Utf8.decodeLossy chunks.flatten))
        preview := by
  rw [cleanChunks_eq_cleanWhole]
  refine ⟨unfinishedPreview? (unwrappedText options chunks.flatten), ?_⟩
  rw [← Session.kept_finalWarnings]
  have silent := Pipeline.log_processAll
    { stages := options.stages, state := { schema := options.defaultSchema } }
    (unitsOf (unwrappedText options chunks.flatten)) rfl
  simp only [unwrappedText] at silent ⊢
  simp only [cleanWhole, PipelineState.foldl_warn, PipelineState.withLog,
    silent]

/-- A report and a session that read the same bytes, each in chunks of its own,
agree. -/
theorem report_predicts_cleaning (options : CleanOptions)
    (reads chunks : List Bytes) (sameBytes : reads.flatten = chunks.flatten) :
    let report := GuardReport.ofChunks options.threshold reads
    let stats := (cleanChunks options {} chunks).2
    report.wouldUnwrap = stats.unwrapped ∧ report.wouldKeep = stats.kept ∧
      report.lines = stats.lines ∧
      report.total = report.wouldUnwrap + report.wouldKeep ∧
      report.total = (report.versions.map Prod.snd).sum ∧
      ∀ version line,
        report.Lists version line ↔
          .unterminatedComment version line ∈ stats.warnings := by
  intro report stats
  have reported :
      report = GuardReport.ofWhole options.threshold chunks.flatten := by
    rw [← sameBytes]
    exact GuardReport.ofChunks_eq_ofWhole options.threshold reads
  have cleaned : stats = (cleanWhole options {} chunks.flatten).2 :=
    congrArg Prod.snd (cleanChunks_eq_cleanWhole options {} chunks)
  have start : GuardReport.Agrees { threshold := options.threshold }
      { threshold := options.threshold, collapse := options.collapse } :=
    ⟨rfl, rfl, rfl, rfl, rfl⟩
  have agrees := start.recordAll (segmentsOf (Utf8.decodeLossy chunks.flatten))
  obtain ⟨preview, warnings⟩ := warnings_cleanChunks options chunks
  refine ⟨?_, ?_, ?_, ?_, ?_, ?_⟩
  · rw [reported, cleaned]
    exact agrees.unwrapped
  · rw [reported, cleaned]
    exact agrees.kept
  · rw [reported, cleaned]
    rfl
  · rw [reported]
    exact agrees.total
  · rw [reported]
    exact agrees.versions
  · intro version line
    rw [show stats.warnings = _ from warnings,
      Session.unterminatedComment_mem_iff, reported]
    rfl

/-- A dump with a guard below the threshold, one that reaches it and one that is
open at the end. -/
def surveyedDump : Text :=
  "/*!40101 SET a=1 */;\n/*!80000 SET b=2 */;\n/*!50001 CREATE".toList

theorem report_predicts_surveyedDump :
    let report :=
      GuardReport.ofChunks defaultThreshold (blocksOf 7 surveyedDump.encode)
    let stats := (cleanChunks {} {} [surveyedDump.encode]).2
    (blocksOf 7 surveyedDump.encode).flatten = [surveyedDump.encode].flatten ∧
      report.wouldUnwrap = 1 ∧ stats.unwrapped = 1 ∧ report.wouldKeep = 1 ∧
      report.Lists (some 50001) 3 ∧
        .unterminatedComment (some 50001) 3 ∈ stats.warnings := by
  intro report stats
  have sameBytes : (blocksOf 7 surveyedDump.encode).flatten =
      [surveyedDump.encode].flatten := by
    rw [flatten_blocksOf (by decide)]
    simp
  obtain ⟨unwrapped, kept, -, -, -, open_iff⟩ :=
    report_predicts_cleaning {} (blocksOf 7 surveyedDump.encode)
      [surveyedDump.encode] sameBytes
  have one : stats.unwrapped = 1 ∧ stats.kept = 1 ∧
      .unterminatedComment (some 50001) 3 ∈ stats.warnings := by
    decide +kernel
  exact ⟨sameBytes, unwrapped.trans one.1, one.1, kept.trans one.2.1,
    (open_iff (some 50001) 3).mpr one.2.2, one.2.2⟩

end SqlDump
