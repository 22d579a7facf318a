import SqlDump.Proofs.Line.Encoding
import SqlDump.Proofs.Session.Streaming
import SqlDump.Proofs.Statement.Lines
import SqlDump.Proofs.Unwrap.Kept
import SqlDump.Proofs.Unwrap.Lines

/-!
# A session that gets whole lines

Behind a line that is one statement, the session holds nothing back: it is as at
the start, apart from its delimiter, its counts and the state of its pipeline.
Such a line therefore passes through the pipeline by itself, as it is when its
guards are taken off.
-/

namespace SqlDump

variable {options : CleanOptions} {delimiter : Delimiter} {session : Session}
  {line : Text}

theorem LineAssembler.push_encode {assembler : LineAssembler}
    (nothing : assembler.pending = []) (broken : line.getLast? = some '\n') :
    (assembler.push line.encode).1.pending = [] ∧
      (assembler.push line.encode).2 = some line := by
  obtain ⟨front, rfl⟩ := List.getLast?_eq_some_iff.mp broken
  have last : (Text.encode (front ++ ['\n'])).getLast? =
      some LineAssembler.lineFeed := by
    rw [Text.encode_append, List.getLast?_append]
    rfl
  have allComplete := (unfinishedPart_eq_nil_iff _).mpr (.inr last)
  have parts :=
    completePart_append_unfinishedPart (Text.encode (front ++ ['\n']))
  rw [allComplete, List.append_nil] at parts
  have complete : completePart (Text.encode (front ++ ['\n'])) ≠ [] := by
    intro empty
    rw [← parts, empty] at last
    simp at last
  rw [push_of_complete complete, parts, nothing, List.nil_append,
    Utf8.decodeLossy_encode]
  exact ⟨allComplete, rfl⟩

/-- The line without the markers of the guards below the threshold. -/
def freedLine (options : CleanOptions) (line : Text) : Text :=
  results ((documentOf line).pieces options.threshold options.collapse)

theorem freedLine_of_stays (stay : GuardsStay options.threshold line) :
    freedLine options line = line := by
  rw [freedLine, ← unwrap_segmentsOf]
  exact (unwrap_of_kept options.collapse stay).1

/-- Nothing goes on behind the line, and without its guards it is one
statement. -/
structure CompleteLine (options : CleanOptions) (delimiter : Delimiter)
    (line : Text) : Prop where
  broken : line.getLast? = some '\n'
  closed : ({} : Lexer).inCodeAt line line.length = true
  statement : EndsAtDelimiter delimiter (freedLine options line)

namespace Session

/-- The session holds nothing back, and the delimiter is in force. -/
structure Rests (options : CleanOptions) (delimiter : Delimiter)
    (session : Session) : Prop where
  lines : session.lines.pending = []
  scanner : session.scanner.Rests
  settled : session.unwrapper.pending = .none
  threshold : session.unwrapper.threshold = options.threshold
  collapse : session.unwrapper.collapse = options.collapse
  assembler : session.assembler =
    { delimiter := delimiter, statements := session.assembler.statements }
  stages : session.pipeline.stages = options.stages

theorem rests_start (options : CleanOptions) (catalog : Catalog) :
    (start options catalog).Rests options .semicolon :=
  ⟨rfl, ⟨rfl, rfl, rfl⟩, rfl, rfl, rfl, rfl, rfl⟩

/-- A line whose freed text leaves the assembler as one unit passes through the
pipeline. -/
theorem Rests.push (rests : session.Rests options delimiter)
    {unit : StatementUnit} {next : Delimiter}
    (broken : line.getLast? = some '\n')
    (closed : ({} : Lexer).inCodeAt line line.length = true)
    (assembled : ∃ statements,
      session.assembler.push (freedLine options line) =
        ({ delimiter := next, statements := statements }, [unit])) :
    (session.push line.encode).2 = [(session.pipeline.process unit).2] ∧
      (session.push line.encode).1.Rests options next := by
  obtain ⟨statements, assembled⟩ := assembled
  obtain ⟨noBytes, text⟩ := LineAssembler.push_encode rests.lines broken
  have ends : endsLine line = true :=
    endsLine_iff.mpr (.inr (List.getLast?_eq_some_iff.mp broken))
  obtain ⟨document, scannerRests⟩ := rests.scanner.feed ends closed
  have segmentsEnd :
      endsLine (Document.ofSegments (session.scanner.feed line).2).text =
        true := by
    rwa [document, text_documentOf]
  have settled :=
    Unwrapper.pending_acceptAll_of_endsLine rests.settled segmentsEnd
  have freed := Unwrapper.acceptAll_of_endsLine rests.settled segmentsEnd
  obtain ⟨threshold, collapse⟩ :=
    session.unwrapper.sameMode_acceptAll (session.scanner.feed line).2
  rw [document, rests.threshold, rests.collapse] at freed
  change _ = freedLine options line at freed
  have stages : (session.pipeline.process unit).1.stages =
      session.pipeline.stages := by
    unfold Pipeline.process
    split <;> rfl
  have fed : session.feed line =
      ({ session with
          scanner := (session.scanner.feed line).1
          unwrapper :=
            (session.unwrapper.acceptAll (session.scanner.feed line).2).1
          assembler := { delimiter := next, statements := statements }
          pipeline := (session.pipeline.process unit).1
          bytesWritten := session.bytesWritten +
            Text.size [(session.pipeline.process unit).2].flatten },
        [(session.pipeline.process unit).2]) := by
    simp only [feed, assemble, write, freed, assembled, Pipeline.processAll]
  rw [push_eq, text]
  dsimp only [feedLines]
  rw [fed]
  exact ⟨rfl, noBytes, scannerRests, settled, threshold.trans rests.threshold,
    collapse.trans rests.collapse, rfl, stages.trans rests.stages⟩

theorem Rests.push_completeLine (rests : session.Rests options delimiter)
    (made : MadeOfMarks delimiter)
    (complete : CompleteLine options delimiter line) :
    (session.push line.encode).2 =
        [(session.pipeline.process ⟨.statement, true,
          freedLine options line⟩).2] ∧
      (session.push line.encode).1.Rests options delimiter := by
  refine rests.push complete.broken complete.closed
    ⟨session.assembler.statements + 1, ?_⟩
  rw [rests.assembler]
  exact StatementAssembler.push_line made complete.statement _

theorem Rests.pushAll_completeLines (rests : session.Rests options delimiter)
    (made : MadeOfMarks delimiter) {lines : List Text}
    (complete : ∀ line ∈ lines, CompleteLine options delimiter line) :
    (session.pushAll (lines.map Text.encode)).1.Rests options delimiter := by
  induction lines generalizing session with
  | nil => exact rests
  | cons line lines ih =>
      have first :=
        (rests.push_completeLine made (complete line (.head lines))).2
      exact ih first fun later member => complete later (.tail line member)

theorem Rests.push_directiveLine {inForce : Delimiter}
    (rests : session.Rests options inForce) (made : MadeOfMarks delimiter) :
    (session.push (directiveLine delimiter).encode).2 =
      [directiveLine delimiter] ∧
      (session.push (directiveLine delimiter).encode).1.Rests options
        delimiter := by
  have noOpener : ∀ character ∈ directiveLine delimiter,
      character ∉ Lexer.openers := by
    have keyword : ∀ character ∈ directiveKeyword ++ [' '],
        character ∉ Lexer.openers :=
      Lexer.forall_not_mem_of_all (by decide)
    have split : directiveLine delimiter =
        (directiveKeyword ++ [' ']) ++ (delimiter.text ++ ['\n']) := by
          simp [directiveLine]
    rw [split]
    exact List.forall_mem_append.mpr ⟨keyword, made.noOpener⟩
  have closed : ({} : Lexer).inCodeAt (directiveLine delimiter)
      (directiveLine delimiter).length = true := by
    have plains := Lexer.inCodeAt_plains [] Lexer.atTopLevel_start noOpener 0
    rwa [List.append_nil, Nat.add_zero, Lexer.inCodeAt_zero] at plains
  have noGuard : ∀ place, ({} : Lexer).inCodeAt (directiveLine delimiter)
      place = true →
      ¬guardMarker <+: (directiveLine delimiter).drop place :=
        fun place _ marker =>
    noOpener '/' (List.mem_of_mem_drop (marker.subset (.head _))) (by decide)
  have pushed := rests.push (getLast?_directiveLine delimiter) closed
    ⟨session.assembler.statements, by
      rw [freedLine_of_stays (guardsStay_of_noMarker noGuard), rests.assembler]
      exact StatementAssembler.push_directiveLine made inForce _⟩
  exact pushed

end Session

end SqlDump
