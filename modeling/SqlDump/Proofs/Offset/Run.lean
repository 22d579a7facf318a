import SqlDump.Proofs.Offset.Assemble
import SqlDump.Proofs.Offset.Room
import SqlDump.Proofs.Offset.Stages
import SqlDump.Proofs.Offset.Unwrap

/-!
# A session by bytes

The whole session of a program that works with byte offsets.  It ends on every
stream, and with a counter that counts every comment it writes and reports what
the session over characters does.
-/

namespace SqlDump

open Text

namespace Offset

def lastLineFeed? : Bytes → Option Nat
  | [] => none
  | byte :: bytes =>
      match lastLineFeed? bytes with
      | some place => some (place + 1)
      | none => if byte = LineAssembler.lineFeed then some 0 else none

def splitBytes (chunk : Bytes) (offset : Nat) : Checked (Bytes × Bytes) :=
  if offset ≤ chunk.length then .ok (chunk.take offset, chunk.drop offset)
  else .error .outside

def pushLines (assembler : LineAssembler) (chunk : Bytes) :
    Checked (LineAssembler × Option Text) :=
  match lastLineFeed? chunk with
  | none => .ok ({ assembler with pending := assembler.pending ++ chunk }, none)
  | some last => do
      let (complete, rest) ← splitBytes chunk (last + 1)
      .ok ({
        pending := rest
        lines := assembler.lines + complete.count LineAssembler.lineFeed },
        some (Utf8.decodeLossy (assembler.pending ++ complete)))

theorem lastLineFeed?_eq_none {bytes : Bytes}
    (absent : LineAssembler.lineFeed ∉ bytes) :
    lastLineFeed? bytes = none := by
  induction bytes with
  | nil => rfl
  | cons byte bytes ih =>
      obtain ⟨other, rest⟩ :=
        not_or.mp (fun found => absent (List.mem_cons.mpr found))
      rw [lastLineFeed?, ih rest]
      exact if_neg fun same => other same.symm

private theorem lastLineFeed?_append (line : Bytes) {rest : Bytes}
    (absent : LineAssembler.lineFeed ∉ rest) :
    lastLineFeed? (line ++ [LineAssembler.lineFeed] ++ rest) =
      some line.length := by
  induction line with
  | nil => simp [lastLineFeed?, lastLineFeed?_eq_none absent]
  | cons byte line ih =>
      simp only [List.cons_append, lastLineFeed?, ih, List.length_cons]

private theorem splitBytes_append (front behind : Bytes) :
    splitBytes (front ++ behind) front.length = .ok (front, behind) := by
  have fits : front.length ≤ (front ++ behind).length := by
    rw [List.length_append]
    exact Nat.le_add_right _ _
  rw [splitBytes, if_pos fits, List.take_left, List.drop_left]

private theorem pushLines_eq (assembler : LineAssembler) (chunk : Bytes) :
    pushLines assembler chunk = .ok (assembler.push chunk) := by
  have absent : LineAssembler.lineFeed ∉ LineAssembler.unfinishedPart chunk :=
    List.count_eq_zero.mp (LineAssembler.count_unfinishedPart chunk)
  have parts := LineAssembler.completePart_append_unfinishedPart chunk
  by_cases unfinished : LineAssembler.completePart chunk = []
  · rw [unfinished, List.nil_append] at parts
    rw [parts] at absent
    rw [pushLines, lastLineFeed?_eq_none absent,
      LineAssembler.push_of_unfinished unfinished]
  · obtain ⟨line, complete⟩ := List.getLast?_eq_some_iff.mp
      ((LineAssembler.completePart_ended chunk).resolve_left unfinished)
    have found := lastLineFeed?_append line absent
    rw [← complete, parts] at found
    have stop :
        line.length + 1 = (LineAssembler.completePart chunk).length := by
      rw [complete, List.length_append, List.length_singleton]
    have cut := splitBytes_append (LineAssembler.completePart chunk)
      (LineAssembler.unfinishedPart chunk)
    rw [parts, ← stop] at cut
    rw [pushLines, found, LineAssembler.push_of_complete unfinished]
    simp only [cut, Checked.ok_bind]

structure ByteSession where
  lines : LineAssembler := {}
  scanner : ByteScanner := {}
  unwrapper : Unwrapper := {}
  assembler : ByteAssembler := {}
  pipeline : Pipeline
  bytesRead : Nat := 0
  bytesWritten : Nat := 0
deriving DecidableEq, Repr

def processAll (counter : DepthCounter) (pipeline : Pipeline) :
    List StatementUnit → Checked (Pipeline × List Text)
  | [] => .ok (pipeline, [])
  | unit :: units => do
      let (processed, text) ← process counter pipeline unit
      let (last, texts) ← processAll counter processed units
      .ok (last, text :: texts)

namespace ByteSession

def start (options : CleanOptions) (catalog : Catalog) : ByteSession where
  unwrapper := { threshold := options.threshold, collapse := options.collapse }
  pipeline :=
    { stages := options.stages
      state := { catalog := catalog, schema := options.defaultSchema } }

def warn (session : ByteSession) (warning : Warning) : ByteSession :=
  { session with
    pipeline :=
      { session.pipeline with state := session.pipeline.state.warn warning } }

def write (counter : DepthCounter) (session : ByteSession)
    (units : List StatementUnit) :
    Checked (ByteSession × List Text) := do
  let (pipeline, texts) ← processAll counter session.pipeline units
  .ok ({ session with
    pipeline := pipeline
    bytesWritten := session.bytesWritten + size texts.flatten }, texts)

def assemble (counter : DepthCounter) (session : ByteSession) (text : Text) :
    Checked (ByteSession × List Text) := do
  let (assembler, units) ← session.assembler.push counter text
  { session with assembler := assembler }.write counter units

def feed (counter : DepthCounter) (session : ByteSession) (text : Text) :
    Checked (ByteSession × List Text) := do
  let (scanner, pieces) ← session.scanner.feed counter text
  let (unwrapper, freed) ← acceptAll session.unwrapper pieces
  { session with scanner := scanner, unwrapper := unwrapper }.assemble
    counter freed

def feedLines (counter : DepthCounter) (session : ByteSession) :
    Option Text → Checked (ByteSession × List Text)
  | none => .ok (session, [])
  | some text => session.feed counter text

def push (counter : DepthCounter) (session : ByteSession) (chunk : Bytes) :
    Checked (ByteSession × List Text) := do
  let (lines, complete) ← pushLines session.lines chunk
  { session with
    lines := lines
    bytesRead := session.bytesRead + chunk.length }.feedLines counter complete

def pushAll (counter : DepthCounter) (session : ByteSession) :
    List Bytes → Checked (ByteSession × List Text)
  | [] => .ok (session, [])
  | chunk :: chunks => do
      let (pushed, first) ← session.push counter chunk
      let (last, rest) ← pushed.pushAll counter chunks
      .ok (last, first ++ rest)

def stats (session : ByteSession) : CleanStats where
  bytesRead := session.bytesRead
  bytesWritten := session.bytesWritten
  lines := session.lines.lines
  statements := session.assembler.statements
  unwrapped := session.unwrapper.unwrapped
  kept := session.unwrapper.kept
  reattached := session.unwrapper.reattached
  counts := session.pipeline.state.counts
  warnings := session.pipeline.state.log.kept
  warningsTruncated := session.pipeline.state.log.dropped

def finish (counter : DepthCounter) (session : ByteSession) :
    Checked (CleanStats × List Text) := do
  let (lines, lastLine) := session.lines.finish
  let (session, fromLine) ←
      { session with lines := lines }.feedLines counter lastLine
  let (scanner, pieces, openComment) ← session.scanner.finish counter
  let (unwrapper, freed) ← acceptAll session.unwrapper pieces
  let (unwrapper, held) := unwrapper.finish
  let (session, fromScan) ←
    { session with scanner := scanner, unwrapper := unwrapper }.assemble counter
      (freed ++ held)
  let (assembler, units, preview) ← session.assembler.finish counter
  let (session, fromEnd) ←
      { session with assembler := assembler }.write counter units
  let session := (Session.finalWarnings openComment preview).foldl warn session
  .ok (session.stats, fromLine ++ fromScan ++ fromEnd)

end ByteSession

def cleanChunks (counter : DepthCounter) (options : CleanOptions)
    (catalog : Catalog) (chunks : List Bytes) :
    Checked (Text × CleanStats) := do
  let (session, written) ←
      (ByteSession.start options catalog).pushAll counter chunks
  let (stats, last) ← session.finish counter
  .ok ((written ++ last).flatten, stats)

/-- The session is where the one over characters is. -/
structure Agrees (faith : Prop) (session : ByteSession) (ideal : Session) :
    Prop where
  lines_eq : session.lines = ideal.lines
  scanners : Stands faith session.scanner ideal.scanner
  unwrapper_eq : session.unwrapper = ideal.unwrapper
  holds : Holds session.assembler ideal.assembler
  pipeline_eq : session.pipeline = ideal.pipeline
  bytesRead_eq : session.bytesRead = ideal.bytesRead
  bytesWritten_eq : session.bytesWritten = ideal.bytesWritten

/-- The session comes to an end; with `faith` it is then where the one over
characters is, and has written the same. -/
def Runs (faith : Prop) (outcome : Checked (ByteSession × List Text))
    (ideal : Session × List Text) : Prop :=
  ∃ session written idealSession, outcome = .ok (session, written) ∧
    Agrees faith session idealSession ∧
    (faith → ideal = (idealSession, written))

variable {counter : DepthCounter} {faith : Prop} {session : ByteSession}
  {ideal : Session} {bound : Nat} {text later : Text}

private theorem agrees_start (options : CleanOptions) (catalog : Catalog) :
    Agrees faith (ByteSession.start options catalog)
      (Session.start options catalog) where
  lines_eq := rfl
  scanners := stands_start
  unwrapper_eq := rfl
  holds := holds_start
  pipeline_eq := rfl
  bytesRead_eq := rfl
  bytesWritten_eq := rfl

theorem processAll_spec (pipeline : Pipeline) (units : List StatementUnit)
    (keeps : ∀ unit ∈ units,
      counter.Keeps faith (openings unit.text + pipeline.room)) :
    ∃ result, processAll counter pipeline units = .ok result ∧
      (faith → pipeline.processAll units = result) := by
  induction units generalizing pipeline with
  | nil => exact ⟨(pipeline, []), rfl, fun _ => rfl⟩
  | cons unit units ih =>
      obtain ⟨⟨processed, text⟩, first, idealFirst⟩ :=
        process_spec pipeline unit (keeps unit List.mem_cons_self)
      have sameRoom (holds : faith) : processed.room = pipeline.room := by
        have room := pipeline.room_process unit
        rwa [idealFirst holds] at room
      obtain ⟨⟨last, texts⟩, later, idealLater⟩ :=
        ih processed fun other member =>
        (keeps other (List.mem_cons_of_mem unit member)).mono fun holds => by
          rw [sameRoom holds]
      refine ⟨(last, text :: texts), ?_, fun holds => ?_⟩
      · simp only [processAll, first, Checked.ok_bind, later]
      · simp only [Pipeline.processAll, idealFirst holds, idealLater holds]

theorem Agrees.write_runs (agrees : Agrees faith session ideal)
    (units : List StatementUnit)
    (keeps : ∀ unit ∈ units,
      counter.Keeps faith (openings unit.text + ideal.pipeline.room)) :
    Runs faith (session.write counter units) (ideal.write units) := by
  rw [← agrees.pipeline_eq] at keeps
  obtain ⟨⟨pipeline, texts⟩, processed, same⟩ :=
    processAll_spec session.pipeline units keeps
  refine ⟨{ session with
      pipeline := pipeline
      bytesWritten := session.bytesWritten + size texts.flatten }, texts,
    { ideal with
      pipeline := pipeline
      bytesWritten := ideal.bytesWritten + size texts.flatten }, ?_, ?_,
        fun holds => ?_⟩
  · simp only [ByteSession.write, processed, Checked.ok_bind]
  · exact { agrees with
      pipeline_eq := rfl
      bytesWritten_eq :=
        congrArg (· + size texts.flatten) agrees.bytesWritten_eq }
  · simp only [Session.write, ← agrees.pipeline_eq, same holds]

theorem Agrees.assemble_runs (agrees : Agrees faith session ideal)
    (keeps : counter.Keeps faith bound)
    (fits : faith → ideal.Fits bound (text ++ later)) :
    Runs faith (session.assemble counter text) (ideal.assemble text) := by
  have keepsText : counter.Keeps faith
      (ideal.assembler.lexer.depth +
        openings (ideal.assembler.ahead ++ text)) :=
    keeps.mono fun holds => (fits holds).text_le
  obtain ⟨assembler, units, idealAssembler, pushed, holds, same⟩ :=
    push_spec agrees.holds keepsText
  have assembled : Agrees faith { session with assembler := assembler }
      { ideal with assembler := idealAssembler } :=
    { agrees with holds := holds }
  obtain ⟨after, written, idealAfter, ran, agreesAfter, sameWritten⟩ :=
    assembled.write_runs units fun unit member => keeps.mono fun faithful => by
      have pushedUnits := (fits faithful).pushed unit
      rw [same faithful] at pushedUnits
      exact pushedUnits member
  refine ⟨after, written, idealAfter, ?_, agreesAfter, fun faithful => ?_⟩
  · simp only [ByteSession.assemble, pushed, Checked.ok_bind, ran]
  · simp only [Session.assemble, same faithful, sameWritten faithful]

theorem Agrees.feed_runs (agrees : Agrees faith session ideal)
    (keeps : counter.Keeps faith bound)
    (within : faith → ideal.Within bound (text ++ later)) :
    Runs faith (session.feed counter text) (ideal.feed text) := by
  have keepsText : counter.Keeps faith
      (ideal.scanner.lexer.depth + openings (ideal.scanner.ahead ++ text)) :=
    keeps.mono fun holds => (within holds).text_le
  obtain ⟨scanner, segments, idealScanner, scanned, stands, same⟩ :=
    feed_spec agrees.scanners text keepsText
  obtain ⟨⟨unwrapper, freed⟩, accepted⟩ :
      ∃ accepted, session.unwrapper.acceptAll segments = accepted := ⟨_, rfl⟩
  have unwrapped : Agrees faith
      { session with scanner := scanner, unwrapper := unwrapper }
      { ideal with scanner := idealScanner, unwrapper := unwrapper } :=
    { agrees with scanners := stands, unwrapper_eq := rfl }
  have fits (holds : faith) :
      Session.Fits
        { ideal with scanner := idealScanner, unwrapper := unwrapper } bound
        (freed ++ (ideal.feed text).1.freed later) := by
    have fits := (within holds).fits
    rw [Session.freed_append, same holds, ← agrees.unwrapper_eq, accepted]
      at fits
    exact ⟨fits.assembler, fits.units⟩
  obtain ⟨after, written, idealAfter, ran, agreesAfter, sameWritten⟩ :=
    unwrapped.assemble_runs keeps fits
  refine ⟨after, written, idealAfter, ?_, agreesAfter, fun holds => ?_⟩
  · simp only [ByteSession.feed, scanned, Checked.ok_bind, acceptAll_eq,
      accepted, ran]
  · simp only [Session.feed, same holds, ← agrees.unwrapper_eq, accepted,
      sameWritten holds]

theorem Agrees.feedLines_runs (agrees : Agrees faith session ideal)
    (keeps : counter.Keeps faith bound) {completed : Option Text}
    (within : faith →
      ideal.Within bound (LineAssembler.textOf completed ++ later)) :
    Runs faith (session.feedLines counter completed)
      (ideal.feedLines completed) := by
  cases completed with
  | none => exact ⟨session, [], ideal, rfl, agrees, fun _ => rfl⟩
  | some text => exact agrees.feed_runs keeps within

theorem Agrees.push_runs (agrees : Agrees faith session ideal)
    (keeps : counter.Keeps faith bound) {chunk rest : Bytes}
    (within : faith → ideal.WithinBytes bound (chunk ++ rest)) :
    Runs faith (session.push counter chunk) (ideal.push chunk) := by
  obtain ⟨⟨lines, completed⟩, split⟩ :
      ∃ split, ideal.lines.push chunk = split := ⟨_, rfl⟩
  have read : Agrees faith
      { session with
        lines := lines
        bytesRead := session.bytesRead + chunk.length }
      (ideal.withInput lines (ideal.bytesRead + chunk.length)) :=
    { agrees with
      lines_eq := rfl
      bytesRead_eq := congrArg (· + chunk.length) agrees.bytesRead_eq }
  have ran := read.feedLines_runs keeps fun holds => by
    have completes := (within holds).completed
    rw [split] at completes
    exact completes.withInput _ _
  simpa only [ByteSession.push, pushLines_eq, agrees.lines_eq, Checked.ok_bind,
    Session.push, split, Session.withInput] using ran

theorem Agrees.pushAll_runs (agrees : Agrees faith session ideal)
    (keeps : counter.Keeps faith bound) {chunks : List Bytes} {rest : Bytes}
    (within : faith → ideal.WithinBytes bound (chunks.flatten ++ rest)) :
    Runs faith (session.pushAll counter chunks) (ideal.pushAll chunks) := by
  induction chunks generalizing session ideal with
  | nil => exact ⟨session, [], ideal, rfl, agrees, fun _ => rfl⟩
  | cons chunk chunks ih =>
      rw [List.flatten_cons, List.append_assoc] at within
      obtain ⟨pushed, first, idealPushed, ran, agreesPushed, same⟩ :=
        agrees.push_runs keeps within
      have withinPushed (holds : faith) :
          idealPushed.WithinBytes bound (chunks.flatten ++ rest) := by
        have later := (within holds).push
        rwa [same holds] at later
      obtain ⟨last, texts, idealLast, ranRest, agreesLast, sameRest⟩ :=
        ih agreesPushed withinPushed
      refine ⟨last, first ++ texts, idealLast, ?_, agreesLast, fun holds => ?_⟩
      · simp only [ByteSession.pushAll, ran, Checked.ok_bind, ranRest]
      · simp only [Session.pushAll, same holds, sameRest holds]

theorem Agrees.foldl_warn (agrees : Agrees faith session ideal)
    (warnings : List Warning) :
    Agrees faith (warnings.foldl ByteSession.warn session)
      (warnings.foldl Session.warn ideal) := by
  induction warnings generalizing session ideal with
  | nil => exact agrees
  | cons warning warnings ih =>
      have warned : Agrees faith (session.warn warning) (ideal.warn warning) :=
        { agrees with
          pipeline_eq := by
            rw [ByteSession.warn, Session.warn, agrees.pipeline_eq] }
      exact ih warned

theorem Agrees.stats_eq (agrees : Agrees faith session ideal) :
    session.stats = ideal.stats := by
  simp only [ByteSession.stats, Session.stats, agrees.lines_eq,
    agrees.unwrapper_eq, agrees.pipeline_eq, agrees.bytesRead_eq,
    agrees.bytesWritten_eq, agrees.holds.same.statements_eq]

/-- Behind the last line the scanners have no more to say. -/
theorem Agrees.finish_spec (agrees : Agrees faith session ideal)
    (keeps : counter.Keeps faith bound)
    (within : faith → ideal.WithinBytes bound []) :
    ∃ result, session.finish counter = .ok result ∧
      (faith → ideal.finish = result) := by
  obtain ⟨⟨lines, lastLine⟩, ended⟩ : ∃ ended, ideal.lines.finish = ended :=
    ⟨_, rfl⟩
  have read : Agrees faith { session with lines := lines }
      (ideal.withInput lines ideal.bytesRead) :=
    { agrees with lines_eq := rfl }
  have withinLine (holds : faith) :
      (ideal.withInput lines ideal.bytesRead).Within bound
      (LineAssembler.textOf lastLine ++ []) := by
    have line := (within holds).finish
    rw [ended] at line
    exact line.withInput _ _
  obtain ⟨fed, fromLine, idealFed, ranLine, agreesFed, sameLine⟩ :=
    read.feedLines_runs keeps withinLine
  have withinFed (holds : faith) : idealFed.Within bound [] := by
    have later := (withinLine holds).feedLines
    rwa [sameLine holds] at later
  obtain ⟨scanner, segments, openComment, idealScanner, scanned, stands,
    sameSegments⟩ :=
    Offset.finish_spec agreesFed.scanners (keeps.mono fun holds =>
      (withinFed holds).ahead_le)
  obtain ⟨⟨accepting, freed⟩, accepted⟩ :
      ∃ accepted, fed.unwrapper.acceptAll segments = accepted := ⟨_, rfl⟩
  obtain ⟨⟨unwrapper, held⟩, freedAll⟩ : ∃ freedAll, accepting.finish =
    freedAll := ⟨_, rfl⟩
  have unwrapEq : fed.unwrapper.unwrap segments =
      (unwrapper, freed ++ held) := by
    simp only [Unwrapper.unwrap, accepted, freedAll]
  have unwrapped : Agrees faith
      { fed with scanner := scanner, unwrapper := unwrapper }
      { idealFed with scanner := idealScanner, unwrapper := unwrapper } :=
    { agreesFed with scanners := stands, unwrapper_eq := rfl }
  have fits (holds : faith) : Session.Fits
      { idealFed with scanner := idealScanner, unwrapper := unwrapper } bound
      (freed ++ held ++ []) := by
    have fits := (withinFed holds).fits
    rw [Session.freed_nil, sameSegments holds, ← agreesFed.unwrapper_eq,
      unwrapEq] at fits
    rw [List.append_nil]
    exact ⟨fits.assembler, fits.units⟩
  obtain ⟨scannedAll, fromScan, idealScanned, ranScan, agreesScanned,
    sameScan⟩ :=
    unwrapped.assemble_runs keeps fits
  have fitsScanned (holds : faith) : idealScanned.Fits bound [] := by
    have later := (fits holds).assemble
    rwa [sameScan holds] at later
  obtain ⟨assembler, units, preview, idealAssembler, finished, holds,
    sameUnits⟩ :=
    finishUnits_spec agreesScanned.holds (keeps.mono fun holds =>
      (fitsScanned holds).ahead_le)
  have assembled : Agrees faith { scannedAll with assembler := assembler }
      { idealScanned with assembler := idealAssembler } :=
    { agreesScanned with holds := holds }
  obtain ⟨last, fromEnd, idealLast, ranEnd, agreesLast, sameEnd⟩ :=
    assembled.write_runs units fun unit member => keeps.mono fun faithful => by
      have finishedUnits := (fitsScanned faithful).finished unit
      rw [sameUnits faithful] at finishedUnits
      exact finishedUnits member
  have warned :=
    agreesLast.foldl_warn (Session.finalWarnings openComment preview)
  refine
    ⟨(((Session.finalWarnings openComment preview).foldl ByteSession.warn
      last).stats,
    fromLine ++ fromScan ++ fromEnd), ?_, fun faithful => ?_⟩
  · simp only [ByteSession.finish, agrees.lines_eq, ended, ranLine,
      Checked.ok_bind, scanned, acceptAll_eq, accepted, freedAll, ranScan,
      finished, ranEnd]
  · have fromLines := sameLine faithful
    simp only [Session.withInput] at fromLines
    simp only [Session.finish, ended, fromLines]
    rw [sameSegments faithful]
    simp only [← agreesFed.unwrapper_eq, accepted, freedAll, sameScan faithful,
      sameUnits faithful, sameEnd faithful, warned.stats_eq]

/-- The session over bytes comes to an end, and if the comments of the stream
are counted it does so with the texts and the report of the one over
characters. -/
theorem cleanChunks_spec (options : CleanOptions) (catalog : Catalog)
    (chunks : List Bytes)
    (keeps : counter.Keeps faith (openings (Utf8.decodeLossy chunks.flatten) +
      catalog.openings)) :
    ∃ result, cleanChunks counter options catalog chunks = .ok result ∧
      (faith → SqlDump.cleanChunks options catalog chunks = result) := by
  have within :=
    Session.within_start options catalog (Utf8.decodeLossy chunks.flatten)
  generalize openings (Utf8.decodeLossy chunks.flatten) + catalog.openings =
    bound at keeps within
  have withinBytes : (Session.start options catalog).WithinBytes bound
      (chunks.flatten ++ []) := by
    rw [List.append_nil]
    exact ⟨rfl, within⟩
  have start : Agrees faith (ByteSession.start options catalog)
      (Session.start options catalog) := agrees_start options catalog
  obtain ⟨last, written, idealLast, ran, agrees, same⟩ :=
    start.pushAll_runs keeps fun _ => withinBytes
  have withinLast (holds : faith) : idealLast.WithinBytes bound [] := by
    have later := withinBytes.pushAll
    rwa [same holds] at later
  obtain ⟨⟨stats, rest⟩, finished, sameRest⟩ :=
    agrees.finish_spec keeps withinLast
  refine ⟨((written ++ rest).flatten, stats), ?_, fun holds => ?_⟩
  · simp only [cleanChunks, ran, Checked.ok_bind, finished]
  · simp only [SqlDump.cleanChunks, same holds, sameRest holds]

end Offset

end SqlDump
