import SqlDump.Proofs.Offset.Feeds
import SqlDump.Proofs.Offset.Openings
import SqlDump.Proofs.Statement.Concatenation

/-!
# Room for the comments of a stream

At every point of a session the depth of each lexer, together with the opening
markers that it has still to read, is bounded by the opening markers of the
whole stream and of the options in the catalog.  So a counter that goes that far
counts all comments of the stream.
-/

namespace SqlDump

open Text

namespace StatementAssembler

variable {assembler moved : StatementAssembler}
  {finished : Option StatementUnit} {atEnd : Bool}

private theorem depth_move_le
    (moves : assembler.move? atEnd = some (moved, finished)) (later : Text) :
    moved.lexer.depth + openings (moved.ahead ++ later) ≤
      assembler.lexer.depth + openings (assembler.ahead ++ later) := by
  have dropped (count : Nat) :
      openings (assembler.ahead.drop count ++ later) ≤
        openings (assembler.ahead ++ later) := by
    have parts := openings_add_le (assembler.ahead.take count)
      (assembler.ahead.drop count ++ later)
    rw [← List.append_assoc, List.take_append_drop] at parts
    omega
  cases move_of_move? moves with
  | directive probe => exact Nat.add_le_add_left (dropped _) _
  | statement terminator known noDirective =>
      exact Nat.add_le_add_left (dropped _) _
  | lexed step noDirective noTerminator =>
      obtain ⟨decided, lexerEq, aheadEq, -⟩ := lexOne?_spec step
      rw [lexerEq, aheadEq]
      exact (Lexer.outcome_step decided).depth_add_openings_le later

private theorem depth_run_le (atEnd : Bool) (assembler : StatementAssembler)
    (later : Text) :
    (run atEnd assembler []).1.lexer.depth +
        openings ((run atEnd assembler []).1.ahead ++ later) ≤
      assembler.lexer.depth + openings (assembler.ahead ++ later) := by
  induction assembler using move_induction atEnd with
  | stop assembler stops => rw [run_of_none [] stops]
  | step assembler moved finished moves ih =>
      rw [run_nil_of_some moves]
      exact ih.trans (depth_move_le moves later)

private theorem openings_unit_le (assembler : StatementAssembler)
    (begins : assembler.atLineStart = endsLine []) {unit : StatementUnit}
    (member : unit ∈ assembler.finish.2.1) :
    openings unit.text ≤ openings assembler.pending := by
  obtain ⟨joined, -⟩ := assembler.finish_spec [] begins
  obtain ⟨earlier, later, split⟩ := List.append_of_mem member
  rw [split, List.flatMap_append, List.flatMap_cons] at joined
  have outer := openings_add_le (earlier.flatMap StatementUnit.text)
    (unit.text ++ later.flatMap StatementUnit.text)
  have inner := openings_add_le unit.text (later.flatMap StatementUnit.text)
  rw [joined] at outer
  omega

end StatementAssembler

namespace Session

variable {session : Session} {bound : Nat} {text later : Text}

/-- The text that the assembler still gets if `later` is all that the scanner
still gets. -/
def freed (session : Session) (later : Text) : Text :=
  (session.unwrapper.unwrap (session.scanner.withMore later).finish.2.1).2

/-- The bound is enough for what the assembler still gets and for the units that
come of it. -/
structure Fits (session : Session) (bound : Nat) (text : Text) : Prop where
  assembler : session.assembler.lexer.depth +
    openings (session.assembler.ahead ++ text) ≤ bound
  units : ∀ unit ∈ (session.assembler.withMore text).finish.2.1,
    openings unit.text + session.pipeline.room ≤ bound

/-- The bound is enough for what the scanner still gets. -/
structure Within (session : Session) (bound : Nat) (later : Text) : Prop where
  scanner : session.scanner.lexer.depth +
    openings (session.scanner.ahead ++ later) ≤ bound
  fits : session.Fits bound (session.freed later)

/-- The bound is enough for the bytes that the session still gets. -/
structure WithinBytes (session : Session) (bound : Nat) (rest : Bytes) :
    Prop where
  settled : session.Settled
  within :
    session.Within bound (Utf8.decodeLossy (session.lines.pending ++ rest))

theorem Fits.text_le (fits : session.Fits bound (text ++ later)) :
    session.assembler.lexer.depth + openings (session.assembler.ahead ++ text) ≤
      bound := by
  have whole := fits.assembler
  have parts := openings_add_le (session.assembler.ahead ++ text) later
  rw [← List.append_assoc] at whole
  omega

theorem Within.text_le (within : session.Within bound (text ++ later)) :
    session.scanner.lexer.depth + openings (session.scanner.ahead ++ text) ≤
      bound := by
  have whole := within.scanner
  have parts := openings_add_le (session.scanner.ahead ++ text) later
  rw [← List.append_assoc] at whole
  omega

theorem Fits.pushed (fits : session.Fits bound (text ++ later)) :
    ∀ unit ∈ (session.assembler.push text).2,
      openings unit.text + session.pipeline.room ≤ bound := by
  intro unit member
  have pushed := session.assembler.finish_withMore text later
  apply fits.units
  rw [pushed]
  exact List.mem_append_left _ member

theorem Fits.assemble (fits : session.Fits bound (text ++ later)) :
    (session.assemble text).1.Fits bound later where
  assembler := by
    have deeper := (session.assembler.withMore text).depth_run_le false later
    have whole := fits.assembler
    rw [← List.append_assoc] at whole
    exact Nat.le_trans deeper whole
  units := by
    intro unit member
    have pushed := session.assembler.finish_withMore text later
    have sameRoom :=
      session.pipeline.room_processAll (session.assembler.push text).2
    have within :=
      fits.units unit (by rw [pushed]; exact List.mem_append_right _ member)
    rwa [← sameRoom] at within

theorem freed_append (session : Session) (text later : Text) :
    session.freed (text ++ later) =
      (session.unwrapper.acceptAll (session.scanner.feed text).2).2 ++
        (session.feed text).1.freed later := by
  obtain ⟨-, sameAtoms⟩ := session.scanner.finish_withMore text later
  rw [freed, session.unwrapper.unwrap_of_atoms sameAtoms]
  rfl

theorem Within.feed (within : session.Within bound (text ++ later)) :
    (session.feed text).1.Within bound later where
  scanner := by
    have deeper :=
      session.scanner.depth_scan_le false (session.scanner.ahead ++ text) later
    have whole := within.scanner
    rw [← List.append_assoc] at whole
    exact Nat.le_trans deeper whole
  fits := by
    have fits := within.fits
    rw [freed_append] at fits
    exact Fits.assemble ⟨fits.assembler, fits.units⟩

theorem Within.feedLines {completed : Option Text}
    (within : session.Within bound (LineAssembler.textOf completed ++ later)) :
    (session.feedLines completed).1.Within bound later := by
  cases completed with
  | none => exact within
  | some text => exact within.feed

theorem Within.withInput (within : session.Within bound later)
    (lines : LineAssembler) (bytesRead : Nat) :
    (session.withInput lines bytesRead).Within bound later :=
  ⟨within.scanner, within.fits.assembler, within.fits.units⟩

theorem Within.ahead_le (within : session.Within bound []) :
    session.scanner.lexer.depth + openings session.scanner.ahead ≤ bound := by
  have whole := within.scanner
  rwa [List.append_nil] at whole

theorem Fits.ahead_le (fits : session.Fits bound []) :
    session.assembler.lexer.depth + openings session.assembler.ahead ≤
      bound := by
  have whole := fits.assembler
  rwa [List.append_nil] at whole

theorem Fits.finished (fits : session.Fits bound []) :
    ∀ unit ∈ session.assembler.finish.2.1,
      openings unit.text + session.pipeline.room ≤ bound := by
  have units := fits.units
  rwa [StatementAssembler.withMore_nil] at units

theorem freed_nil (session : Session) :
    session.freed [] =
      (session.unwrapper.unwrap session.scanner.finish.2.1).2 := by
  have same : session.scanner.withMore [] = session.scanner := by
    simp [Scanner.withMore]
  rw [freed, same]

/-- The lines that a chunk completes are a part of what the scanner still
gets. -/
theorem WithinBytes.completed {chunk rest : Bytes}
    (within : session.WithinBytes bound (chunk ++ rest)) :
    session.Within bound (LineAssembler.textOf (session.lines.push chunk).2 ++
      Utf8.decodeLossy ((session.lines.push chunk).1.pending ++ rest)) := by
  obtain ⟨-, decoded, -⟩ := session.lines.push_spec chunk rest within.settled
  rw [← decoded]
  exact within.within

theorem WithinBytes.push {chunk rest : Bytes}
    (within : session.WithinBytes bound (chunk ++ rest)) :
    (session.push chunk).1.WithinBytes bound rest where
  settled := session.settled_push chunk within.settled
  within := by
    rw [push_eq]
    exact within.completed.feedLines.withInput _ _

theorem WithinBytes.pushAll {chunks : List Bytes} {rest : Bytes}
    (within : session.WithinBytes bound (chunks.flatten ++ rest)) :
    (session.pushAll chunks).1.WithinBytes bound rest := by
  induction chunks generalizing session with
  | nil => exact within
  | cons chunk chunks ih =>
      rw [List.flatten_cons, List.append_assoc] at within
      exact ih within.push

theorem WithinBytes.finish (within : session.WithinBytes bound []) :
    session.Within bound (LineAssembler.textOf session.lines.finish.2 ++
      []) := by
  have whole := within.within
  rw [List.append_nil] at whole ⊢
  rwa [(session.lines.finish_spec within.settled).1]

/-- At the start there is room for the markers of the stream and of the
catalog. -/
theorem within_start (options : CleanOptions) (catalog : Catalog)
    (text : Text) :
    (start options catalog).Within (openings text + catalog.openings) text := by
  have unwrapped : openings ((start options catalog).freed text) ≤
      openings text :=
    Unwrapper.openings_unwrap_le options.threshold options.collapse text
  have once : options.stages.count .tableOptions = 1 := by
    unfold CleanOptions.stages
    cases options.noDrop <;> cases options.sanitize <;> rfl
  have room : (start options catalog).pipeline.room = catalog.openings := by
    change options.stages.count .tableOptions * catalog.openings = _
    rw [once, Nat.one_mul]
  have starts : ∀ rest : Text, ({} : Lexer).depth + openings ([] ++ rest) =
      openings rest :=
    fun rest => Nat.zero_add _
  refine ⟨?_, ?_, fun unit member => ?_⟩
  · exact (starts text).le.trans (Nat.le_add_right _ _)
  · exact (starts _).le.trans (unwrapped.trans (Nat.le_add_right _ _))
  · have inside := StatementAssembler.openings_unit_le _ rfl member
    rw [room]
    exact Nat.add_le_add_right (inside.trans unwrapped) _

end Session

end SqlDump
