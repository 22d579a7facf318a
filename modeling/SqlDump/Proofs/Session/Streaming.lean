import SqlDump.Proofs.Line.Decoding
import SqlDump.Proofs.Statement.Pushes
import SqlDump.Proofs.Unwrap.Cuts
import SqlDump.Session

/-!
# A stream is cleaned like the whole

Cleaning a dump that is there as a whole is the composition of the stages, each
applied once to all that the stage before it gives.  A session holds back a part
of its input in every stage; what it would write and report if the whole
remainder came at once does not change when the remainder comes in pieces.
-/

namespace SqlDump

theorem Text.size_eq_length_encode (text : Text) :
    text.size = text.encode.length := by
  induction text with
  | nil => rfl
  | cons head tail ih =>
      simp only [Text.size, List.foldr_cons, Text.encode, List.flatMap_cons,
        List.length_append, String.length_utf8EncodeChar] at ih ⊢
      rw [ih]

theorem Text.size_append (first second : Text) :
    Text.size (first ++ second) = first.size + second.size := by
  simp only [Text.size_eq_length_encode, Text.encode, List.flatMap_append,
    List.length_append]

theorem Pipeline.processAll_append (pipeline : Pipeline)
    (first second : List StatementUnit) :
    pipeline.processAll (first ++ second) =
      (((pipeline.processAll first).1.processAll second).1,
        (pipeline.processAll first).2 ++
        ((pipeline.processAll first).1.processAll second).2) := by
  induction first generalizing pipeline with
  | nil => rfl
  | cons unit units ih => simp only [List.cons_append, Pipeline.processAll, ih]

/-- The output and the report for a dump that is there as a whole: decoded,
scanned, unwrapped and split once, and each unit passed through the pipeline in
its turn. -/
def cleanWhole (options : CleanOptions) (catalog : Catalog) (input : Bytes) :
    Text × CleanStats :=
  let text := Utf8.decodeLossy input
  let (unwrapper, freed) :=
    Unwrapper.unwrap
      { threshold := options.threshold, collapse := options.collapse }
      (segmentsOf text)
  let units := unitsOf freed
  let (pipeline, written) := Pipeline.processAll
    { stages := options.stages
      state := { catalog := catalog, schema := options.defaultSchema } } units
  let final :=
    (Session.finalWarnings (openCommentOf? text)
      (unfinishedPreview? freed)).foldl
    PipelineState.warn pipeline.state
  (written.flatten,
    { bytesRead := input.length
      bytesWritten := (Text.encode written.flatten).length
      lines := LineAssembler.lineCount input
      statements := units.countP (·.kind == .statement)
      unwrapped := unwrapper.unwrapped
      kept := unwrapper.kept
      reattached := unwrapper.reattached
      counts := final.counts
      warnings := final.log.kept
      warningsTruncated := final.log.dropped })

namespace Session

def pushAll (session : Session) : List Bytes → Session × List Text
  | [] => (session, [])
  | chunk :: chunks =>
      let (pushed, first) := session.push chunk
      let (last, rest) := pushed.pushAll chunks
      (last, first ++ rest)

end Session

def cleanChunks (options : CleanOptions) (catalog : Catalog)
    (chunks : List Bytes) :
    Text × CleanStats :=
  let (session, written) := (Session.start options catalog).pushAll chunks
  let (stats, last) := session.finish
  ((written ++ last).flatten, stats)

namespace Session

/-- What a session writes and reports if `text` is all that its scanner still
gets. -/
def concludeText (session : Session) (text : Text) : Text × CleanStats :=
  let (_, segments, openComment) := (session.scanner.withMore text).finish
  let (unwrapper, freed) := session.unwrapper.unwrap segments
  let (assembler, units, preview) := (session.assembler.withMore freed).finish
  let (pipeline, written) := session.pipeline.processAll units
  let ended : Session :=
    { session with
      unwrapper := unwrapper
      assembler := assembler
      pipeline := pipeline
      bytesWritten := session.bytesWritten + Text.size written.flatten }
  (written.flatten,
    ((finalWarnings openComment preview).foldl warn ended).stats)

def withInput (session : Session) (lines : LineAssembler) (bytesRead : Nat) :
    Session :=
  { session with lines := lines, bytesRead := bytesRead }

/-- What a session writes and reports if `rest` is all that it still gets. -/
def conclude (session : Session) (rest : Bytes) : Text × CleanStats :=
  let bytes := session.lines.pending ++ rest
  (session.withInput { lines :=
    session.lines.lines + LineAssembler.lineCount bytes }
    (session.bytesRead + rest.length)).concludeText (Utf8.decodeLossy bytes)

theorem foldl_warn (session : Session) (warnings : List Warning) :
    warnings.foldl warn session =
      { session with
        pipeline := { session.pipeline with
          state :=
            warnings.foldl PipelineState.warn session.pipeline.state } } := by
  induction warnings generalizing session with
  | nil => rfl
  | cons warning warnings ih => rw [List.foldl_cons, ih]; rfl

theorem concludeText_feed (session : Session) (first second : Text) :
    session.concludeText (first ++ second) =
      ((session.feed first).2.flatten ++
        ((session.feed first).1.concludeText second).1,
        ((session.feed first).1.concludeText second).2) := by
  obtain ⟨sameComment, sameAtoms⟩ :=
    session.scanner.finish_withMore first second
  have unwrapped := session.unwrapper.unwrap_of_atoms sameAtoms
  let fed := session.scanner.feed first
  let accepted := session.unwrapper.acceptAll fed.2
  have assembled := session.assembler.finish_withMore accepted.2
    (accepted.1.unwrap (fed.1.withMore second).finish.2.1).2
  simp only [concludeText, feed, assemble, write, sameComment, unwrapped]
  simp only [assembled, Pipeline.processAll_append, List.flatten_append,
    Text.size_append, foldl_warn, accepted, fed]
  simp [stats, Nat.add_assoc]

theorem feedLines_withInput (session : Session) (lines : LineAssembler)
    (bytesRead : Nat) (completed : Option Text) :
    (session.withInput lines bytesRead).feedLines completed =
      ((session.feedLines completed).1.withInput lines bytesRead,
        (session.feedLines completed).2) := by
  cases completed <;> rfl

theorem concludeText_feedLines (session : Session) (completed : Option Text)
    (rest : Text) :
    session.concludeText (LineAssembler.textOf completed ++ rest) =
      ((session.feedLines completed).2.flatten ++
          ((session.feedLines completed).1.concludeText rest).1,
        ((session.feedLines completed).1.concludeText rest).2) := by
  cases completed with
  | none => rfl
  | some text => exact session.concludeText_feed text rest

theorem push_eq (session : Session) (chunk : Bytes) :
    session.push chunk =
      ((session.feedLines (session.lines.push chunk).2).1.withInput
          (session.lines.push chunk).1 (session.bytesRead + chunk.length),
        (session.feedLines (session.lines.push chunk).2).2) :=
  session.feedLines_withInput _ _ _

/-- The line assembler of the session holds no line break. -/
def Settled (session : Session) : Prop :=
  session.lines.Settled

theorem settled_push (session : Session) (chunk : Bytes)
    (settled : session.Settled) :
    (session.push chunk).1.Settled := by
  rw [push_eq]
  exact (session.lines.push_spec chunk [] settled).1

/-- A push takes a part of the remaining bytes to the output. -/
theorem conclude_push (session : Session) (chunk rest : Bytes)
    (settled : session.Settled) :
    session.conclude (chunk ++ rest) =
      ((session.push chunk).2.flatten ++
        ((session.push chunk).1.conclude rest).1,
        ((session.push chunk).1.conclude rest).2) := by
  obtain ⟨_, decoded, counted⟩ := session.lines.push_spec chunk rest settled
  rw [push_eq]
  simp only [conclude, decoded, counted, concludeText_feedLines,
    feedLines_withInput, List.length_append]
  simp only [withInput, Nat.add_assoc]

theorem conclude_pushAll (session : Session) (chunks : List Bytes)
    (settled : session.Settled) :
    session.conclude chunks.flatten =
      ((session.pushAll chunks).2.flatten ++
        ((session.pushAll chunks).1.conclude []).1,
        ((session.pushAll chunks).1.conclude []).2) ∧
      (session.pushAll chunks).1.Settled := by
  induction chunks generalizing session with
  | nil => exact ⟨rfl, settled⟩
  | cons chunk chunks ih =>
      obtain ⟨rest, stillSettled⟩ :=
        ih (session.push chunk).1 (session.settled_push chunk settled)
      refine ⟨?_, stillSettled⟩
      rw [List.flatten_cons, conclude_push session chunk _ settled, rest]
      simp only [pushAll, List.flatten_append, List.append_assoc]

def release (session : Session) : CleanStats × List Text :=
  let (scanner, segments, openComment) := session.scanner.finish
  let (unwrapper, freed) := session.unwrapper.unwrap segments
  let (session, fromScan) :=
    { session with scanner := scanner, unwrapper := unwrapper }.assemble freed
  let (assembler, units, preview) := session.assembler.finish
  let (session, fromEnd) := { session with assembler := assembler }.write units
  (((finalWarnings openComment preview).foldl warn session).stats,
    fromScan ++ fromEnd)

private theorem finish_eq_release (session : Session) :
    session.finish =
      (((session.withInput session.lines.finish.1 session.bytesRead).feedLines
          session.lines.finish.2).1.release.1,
        ((session.withInput session.lines.finish.1 session.bytesRead).feedLines
            session.lines.finish.2).2 ++
          ((session.withInput session.lines.finish.1
            session.bytesRead).feedLines
            session.lines.finish.2).1.release.2) :=
  Prod.ext rfl (List.append_assoc _ _ _)

private theorem concludeText_nil (session : Session) :
    session.concludeText [] =
      (session.release.2.flatten, session.release.1) := by
  let accepted := session.unwrapper.unwrap session.scanner.finish.2.1
  have assembled := session.assembler.finish_withMore accepted.2 []
  have scanned : session.scanner.withMore [] = session.scanner := by
    simp [Scanner.withMore]
  simp only [List.append_nil, StatementAssembler.withMore_nil, accepted]
    at assembled
  simp only [concludeText, release, assemble, write, scanned, assembled,
    Pipeline.processAll_append, List.flatten_append, Text.size_append,
    foldl_warn]
  simp [stats, Nat.add_assoc]

theorem finish_eq (session : Session) (settled : session.Settled) :
    (session.finish.2.flatten, session.finish.1) = session.conclude [] := by
  obtain ⟨decoded, counted⟩ := session.lines.finish_spec settled
  have lastLine := concludeText_feedLines
    (session.withInput session.lines.finish.1 session.bytesRead)
      session.lines.finish.2 []
  rw [List.append_nil, decoded, concludeText_nil, counted] at lastLine
  rw [finish_eq_release, counted]
  simp only [conclude, List.append_nil, List.length_nil, Nat.add_zero, lastLine,
    List.flatten_append]

theorem conclude_start (options : CleanOptions) (catalog : Catalog)
    (input : Bytes) :
    (start options catalog).conclude input =
      cleanWhole options catalog input := by
  have counted := StatementAssembler.statements_finish
  simp [conclude, concludeText, cleanWhole, start, withInput, foldl_warn, stats,
    counted, segmentsOf, openCommentOf?, unitsOf, unfinishedPreview?,
    StatementAssembler.withMore, Text.size_eq_length_encode]

end Session

theorem cleanChunks_eq_cleanWhole (options : CleanOptions) (catalog : Catalog)
    (chunks : List Bytes) :
    cleanChunks options catalog chunks =
      cleanWhole options catalog chunks.flatten := by
  have settled : (Session.start options catalog).Settled := rfl
  obtain ⟨streamed, stillSettled⟩ := Session.conclude_pushAll _ chunks settled
  rw [← Session.conclude_start, streamed, ← Session.finish_eq _ stillSettled]
  simp only [cleanChunks, List.flatten_append]

theorem cleanBytes_eq_cleanWhole (options : CleanOptions) (catalog : Catalog)
    (input : Bytes) :
    cleanBytes options catalog input = cleanWhole options catalog input := by
  have whole := cleanChunks_eq_cleanWhole options catalog [input]
  simpa [cleanChunks, cleanBytes, Session.pushAll] using whole

/-- The text that the units of a dump are cut from. -/
def unwrappedText (options : CleanOptions) (input : Bytes) : Text :=
  (Unwrapper.unwrap
    { threshold := options.threshold, collapse := options.collapse }
    (segmentsOf (Utf8.decodeLossy input))).2

/-- However a dump is cut into chunks, its output and its report are those of
the whole; the report gives the size of the output, the lines of the input and
the statements among the units. -/
theorem cleanChunks_agrees_with_whole (options : CleanOptions)
    (catalog : Catalog) (chunks : List Bytes) :
    let cleaned := cleanChunks options catalog chunks
    let input := chunks.flatten
    cleaned = cleanWhole options catalog input ∧
      cleaned.2.bytesWritten = cleaned.1.encode.length ∧
      cleaned.2.lines = input.count LineAssembler.lineFeed +
        (if input = [] ∨ input.getLast? = some LineAssembler.lineFeed then 0
          else 1) ∧
      cleaned.2.statements =
        ((unitsOf (unwrappedText options input)).filter
          (·.kind == .statement)).length := by
  intro cleaned input
  have whole : cleaned = cleanWhole options catalog input :=
    cleanChunks_eq_cleanWhole options catalog chunks
  refine ⟨whole, ?_, ?_, ?_⟩
  · rw [whole]
    rfl
  · rw [whole]
    simp only [cleanWhole, LineAssembler.lineCount,
      LineAssembler.unfinishedPart_eq_nil_iff]
  · rw [whole, ← List.countP_eq_length_filter]
    rfl

end SqlDump
