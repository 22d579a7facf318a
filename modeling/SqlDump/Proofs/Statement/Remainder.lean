import SqlDump.Proofs.Statement.Delimiters

/-!
# What remains at the end of a stream

The assembler marks the unfinished unit when it lexes a token.  The mark stays
over all pushes and goes with every unit that leaves, and at the end of the
stream it says of the remainder what the offset of its first token says: a
statement is reported as unfinished exactly if the remainder holds a token.
-/

namespace SqlDump

namespace StatementAssembler

variable {assembler moved : StatementAssembler}
  {finished : Option StatementUnit}

/-- A marked unit has its first token in what was lexed.  Without the mark only
trivia were lexed, which is part of tracking the unit. -/
structure Marks (assembler : StatementAssembler) : Prop where
  tracks : assembler.Tracks
  token : assembler.tokenSeen = true →
    statementOffset assembler.pending < assembler.lexed.length

theorem marks_of_begin (start : assembler.lexer = {})
    (nothing : assembler.lexed = []) (noToken : assembler.tokenSeen = false) :
    assembler.Marks := by
  refine ⟨tracks_of_begin start nothing, fun token => ?_⟩
  exact absurd (noToken.symm.trans token) Bool.false_ne_true

private theorem length_lexed_lexOne
    (step : assembler.lexOne? true = some moved) :
    assembler.lexed.length < moved.lexed.length := by
  obtain ⟨decided, -, -, lexedEq, -, -⟩ := lexOne?_spec step
  have positive :=
    (assembler.lexer.step_eq_needMore_or_consumed_pos true
      assembler.ahead).resolve_left decided
  have fits := assembler.lexer.consumed_step_le true assembler.ahead
  rw [lexedEq, List.length_append, List.length_reverse, List.length_take,
    Nat.min_eq_left fits]
  omega

/-- The step that reads the first token stands at the offset of the token. -/
theorem statementOffset_of_firstToken (tracks : assembler.Tracks)
    (step : assembler.lexOne? true = some moved)
    (before : assembler.tokenSeen = false) (token : moved.tokenSeen = true) :
    statementOffset assembler.pending = assembler.lexed.length := by
  have seen := tokenSeen_lexOne step
  have skips := tracks.trivia before
  cases ahead : assembler.ahead with
  | nil => simp [lexOne?, ahead, Lexer.step] at step
  | cons head tail =>
      simp only [before, token, ahead, List.head?_cons, Option.any_some,
        Bool.false_or] at seen
      have offset : assembler.lexer.triviaLength (head :: tail) = 0 := by
        rw [Lexer.triviaLength_cons, if_pos seen.symm]
      rw [Lexer.Skips, ahead, offset, List.length_reverse] at skips
      rw [pending, ahead]
      exact skips

theorem Marks.lexOne (marks : assembler.Marks)
    (step : assembler.lexOne? true = some moved)
    (noTerminator : assembler.behindDelimiter? = none) : moved.Marks := by
  refine ⟨marks.tracks.lexOne step noTerminator, fun token => ?_⟩
  have longer := length_lexed_lexOne step
  rw [pending_lexOne step]
  cases before : assembler.tokenSeen with
  | true =>
      have inside := marks.token before
      omega
  | false =>
      rw [statementOffset_of_firstToken marks.tracks step before token]
      exact longer

theorem Marks.move (marks : assembler.Marks)
    (moves : assembler.move? true = some (moved, finished)) : moved.Marks := by
  cases move_of_move? moves with
  | directive probe =>
      obtain ⟨-, -, -, -, -, -, -, start⟩ :=
        directiveLine_takeDirective marks.tracks probe
      exact marks_of_begin start rfl rfl
  | statement found known =>
      have start :=
        lexer_eq_start marks.tracks (behindDelimiter?_eq_some_iff.mp found).1
      exact marks_of_begin start rfl rfl
  | lexed step noDirective noTerminator => exact marks.lexOne step noTerminator

/-- At the end of the stream nothing is ahead, and the unfinished unit has kept
its mark. -/
theorem Marks.run (marks : assembler.Marks) :
    (run true assembler []).1.Marks ∧ (run true assembler []).1.ahead = [] := by
  induction assembler using move_induction true with
  | stop assembler stops =>
      rw [run_of_none [] stops]
      exact ⟨marks, Decidable.byContradiction fun nonempty =>
        move?_true_ne_none nonempty stops⟩
  | step assembler moved finished moves ih =>
      rw [run_nil_of_some moves]
      exact ih (marks.move moves)

theorem Marks.tokenSeen_iff (marks : assembler.Marks)
    (nothing : assembler.ahead = []) :
    assembler.tokenSeen = true ↔
      statementOffset assembler.pending < assembler.pending.length := by
  have length : assembler.pending.length = assembler.lexed.length := by
    simp [pending, nothing]
  rw [length]
  refine ⟨marks.token, fun inside => ?_⟩
  cases seen : assembler.tokenSeen with
  | true => rfl
  | false =>
      have skips := marks.tracks.trivia seen
      rw [nothing] at skips
      have offset := statementOffset_of_skips skips
      rw [pending, nothing, List.append_nil, offset, List.length_reverse]
        at inside
      exact absurd inside (Nat.lt_irrefl _)

private theorem kind_ne_trailing_run (atEnd : Bool)
    (assembler : StatementAssembler) :
    ∀ unit ∈ (run atEnd assembler []).2, unit.kind ≠ .trailing := by
  induction assembler using move_induction atEnd with
  | stop assembler stops => simp [run_of_none [] stops]
  | step assembler moved finished moves ih =>
      rw [run_nil_of_some moves]
      intro unit member
      rcases List.mem_append.mp member with first | later
      · cases move_of_move? moves with
        | directive probe =>
            obtain rfl := List.mem_singleton.mp first
            simp [takeDirective, cut]
        | statement found known =>
            obtain rfl := List.mem_singleton.mp first
            simp [takeStatement, cut]
        | lexed step noDirective noTerminator =>
            exact absurd first (List.not_mem_nil)
      · exact ih unit later

theorem finish_eq (assembler : StatementAssembler) :
    assembler.finish.2 =
      ((run true assembler []).2 ++
        (if (run true assembler []).1.pending = [] then []
        else [⟨.trailing, (run true assembler []).1.atLineStart,
          (run true assembler []).1.pending⟩]),
      if (run true assembler []).1.tokenSeen then
        some (preview (run true assembler []).1.pending)
      else none) := rfl

end StatementAssembler

/-- A statement is reported as unfinished exactly if what remains behind the
last unit holds a token, which is code or the marker of a guard behind trivia.
Trivia alone, whether or not a comment at their end is closed, are not
reported. -/
theorem reports_unfinished_iff_token (chunks : List Text) :
    ∃ finished rest atLineStart,
      unitsIn chunks = finished ++
        (if rest = [] then [] else [⟨.trailing, atLineStart, rest⟩]) ∧
      (∀ unit ∈ finished, unit.kind ≠ .trailing) ∧
      chunks.flatten = finished.flatMap StatementUnit.text ++ rest ∧
      (({} : StatementAssembler).pushAll chunks).1.finish.2.2 =
        (if statementOffset rest < rest.length then
          some (StatementAssembler.preview rest)
        else none) ∧
      (statementOffset rest < rest.length ↔
        ∃ front token, rest = front ++ token ∧ Trivia front ∧
          TokenAtStart token) ∧
      (¬statementOffset rest < rest.length ↔ OnlyTrivia rest) := by
  have whole := StatementAssembler.run_withMore_flatten {} chunks
  have begins : (({} : StatementAssembler).withMore chunks.flatten).Marks :=
    StatementAssembler.marks_of_begin rfl rfl rfl
  obtain ⟨marks, nothing⟩ := begins.run
  have seen := marks.tokenSeen_iff nothing
  have kinds := StatementAssembler.kind_ne_trailing_run true
    (({} : StatementAssembler).withMore chunks.flatten)
  obtain ⟨joined, -, -⟩ := StatementAssembler.run_spec true
    (({} : StatementAssembler).withMore chunks.flatten) [] rfl
  have released :=
    StatementAssembler.finish_eq (({} : StatementAssembler).pushAll chunks).1
  rw [whole] at kinds joined seen
  generalize StatementAssembler.run true
    (({} : StatementAssembler).pushAll chunks).1 [] = drained
    at kinds joined seen released
  refine ⟨_, drained.1.pending, drained.1.atLineStart, ?_, kinds, joined.symm,
    ?_, statementOffset_lt_iff, onlyTrivia_iff.symm⟩
  · rw [unitsIn, released, List.append_assoc]
  · simp only [released, seen]

end SqlDump
