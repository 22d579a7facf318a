import SqlDump.Proofs.Segment.Lines
import SqlDump.Proofs.Statement.Delimiters
import SqlDump.Proofs.Statement.Directive

/-!
# Assembling whole lines

An assembler never waits at the end of a line.  If the line holds the delimiter
in force for the first time at its end, and does not begin with a directive, it
leaves as one unit, and the assembler is as it was, apart from its count.
-/

namespace SqlDump

variable {text line front : Text} {delimiter : Delimiter}

private theorem directiveLength_false_eq (broken : '\n' ∈ text) :
    directiveLength false text = directiveLength true text := by
  have line : (text.takeWhile (· != '\n')).length < text.length := by
    obtain ⟨line, later, split, lineEq, outside, ending⟩ := exists_line text
    rw [lineEq, split]
    rcases ending with rfl | ⟨behind, rfl⟩
    · rw [split, List.append_nil] at broken
      exact absurd broken outside
    · simp
  unfold directiveLength
  split
  · next short =>
      -- No part of the keyword holds a line break.
      have other : Text.sameAsciiWord (directiveKeyword.take text.length) text =
          false := by
        refine Bool.eq_false_iff.mpr fun same => ?_
        have letters : ∀ letter ∈ directiveKeyword, letter.toLower ≠ '\n' := by
          simp [directiveKeyword]
        have lowered := List.mem_map_of_mem broken (f := Char.toLower)
        simp only [Text.sameAsciiWord, beq_iff_eq] at same
        rw [← same] at lowered
        obtain ⟨letter, member, letterEq⟩ := List.mem_map.mp lowered
        exact letters letter (List.mem_of_mem_take member) letterEq
      rw [other]
      rfl
  · dsimp only
    rw [if_pos line, if_pos line]

private theorem unitTail?_false_eq (broken : '\n' ∈ text) :
    unitTail? false text = unitTail? true text := by
  have behind : '\n' ∈ text.drop (text.takeWhile isPadding).length := by
    have padding : '\n' ∉ text.takeWhile isPadding := fun member =>
      absurd (List.all_eq_true.mp List.all_takeWhile _ member) (by decide)
    have parts : text.takeWhile isPadding ++ text.dropWhile isPadding = text :=
      List.takeWhile_append_dropWhile
    have rest : text.drop (text.takeWhile isPadding).length =
        text.dropWhile isPadding := by
      conv_lhs => arg 2; rw [← parts]
      exact List.drop_left
    rw [rest]
    exact (List.mem_append.mp (parts.symm ▸ broken)).resolve_left padding
  unfold unitTail?
  dsimp only
  split
  · next none => simp [none] at behind
  · rfl
  · rfl
  · next last => simp [last] at behind
  · rfl

namespace StatementAssembler

variable {assembler : StatementAssembler} {unit : StatementUnit}

theorem directiveProbe_false_eq (broken : '\n' ∈ assembler.ahead) :
    assembler.directiveProbe false = assembler.directiveProbe true := by
  rw [directiveProbe, directiveProbe, directiveLength_false_eq broken]

/-- In front of a line break no move waits for more. -/
theorem move?_false_eq (broken : '\n' ∈ assembler.ahead)
    (oneLine : '\n' ∉ assembler.delimiter.text) :
    assembler.move? false = assembler.move? true := by
  have lexed : assembler.lexOne? false = assembler.lexOne? true := by
    rw [lexOne?, lexOne?, Lexer.step_false_eq broken]
  have noStart : assembler.beginsDelimiter = false := by
    refine Bool.eq_false_iff.mpr fun begins => ?_
    simp only [beginsDelimiter, Bool.and_eq_true, List.isPrefixOf_iff_prefix]
      at begins
    exact oneLine (begins.2.subset broken)
  unfold move?
  rw [directiveProbe_false_eq broken, lexed, noStart]
  split
  · rfl
  · rfl
  · split
    · next behind terminator =>
        have parts := (behindDelimiter?_eq_some_iff.mp terminator).2
        have behindBreak : '\n' ∈ behind :=
          (List.mem_append.mp (parts ▸ broken)).resolve_left oneLine
        rw [unitTail?_false_eq behindBreak]
    · rfl

theorem run_of_nothing (atEnd : Bool) (nothing : assembler.ahead = []) :
    run atEnd assembler [] = (assembler, []) :=
  run_of_none [] (move?_of_nothing atEnd nothing)

/-- A text that is one statement and ends a line leaves as one unit, whether or
not the stream ends there. -/
theorem run_of_firstStatement (atEnd : Bool) (plain : assembler.PlainDelimiter)
    (oneLine : '\n' ∉ assembler.delimiter.text)
    (ends : endsLine assembler.ahead = true) (proper : assembler.lexer.Proper)
    (first : assembler.FirstStatement unit)
    (whole : unit.text = assembler.pending) :
    run atEnd assembler [] =
      ({ delimiter := assembler.delimiter
         statements := assembler.statements + 1
         atLineStart := unit.text.getLast? == some '\n' }, [unit]) := by
  induction assembler using move_induction true with
  | stop assembler stops =>
      obtain ⟨-, count, tailLength, terminator, -, -⟩ := first
      have empty : assembler.ahead = [] :=
        Decidable.byContradiction fun nonempty =>
          move?_true_ne_none nonempty stops
      have here := terminator.here
      rw [empty, List.drop_nil, List.prefix_nil] at here
      exact absurd here assembler.delimiter.nonempty
  | step assembler moved finished moves ih =>
      have nonempty : assembler.ahead ≠ [] := by
        intro empty
        have shorter := length_move?_lt moves
        simp [empty] at shorter
      have movesEither : assembler.move? atEnd = some (moved, finished) := by
        cases atEnd with
        | true => exact moves
        | false =>
            exact (move?_false_eq (mem_of_endsLine ends nonempty) oneLine).trans
              moves
      rw [run_nil_of_some movesEither]
      cases move_of_move? moves with
      | directive probe => exact absurd (directs_of_probe probe) first.1
      | @statement behind tailLength found known probe =>
          obtain rfl :=
            (firstStatement_takeStatement plain found known probe unit).mp first
          have nothing : (assembler.takeStatement tailLength).1.pending =
              [] := by
            have parts : (assembler.takeStatement tailLength).2.text ++
                (assembler.takeStatement tailLength).1.pending =
                  assembler.pending :=
              cut_spec .statement _
            exact List.append_cancel_left
              (parts.trans (whole.symm.trans (List.append_nil _).symm))
          have start := Lexer.eq_start_of_atTopLevel proper
            (behindDelimiter?_eq_some_iff.mp found).1
          obtain ⟨-, aheadEmpty⟩ := List.append_eq_nil_iff.mp nothing
          have state : (assembler.takeStatement tailLength).1 =
              { delimiter := assembler.delimiter
                statements := assembler.statements + 1
                atLineStart :=
                  (assembler.takeStatement tailLength).2.text.getLast? ==
                  some '\n' } := by
            change assembler.ahead.drop _ = [] at aheadEmpty
            simp only [takeStatement, cut, start, aheadEmpty,
              List.getLast?_reverse]
          rw [state, run_of_nothing atEnd rfl]
          rfl
      | lexed step probe noTerminator =>
          obtain ⟨-, lexerEq, aheadEq, -, ⟨delimiterEq, -⟩, statementsEq⟩ :=
            lexOne?_spec step
          have plainThen : moved.PlainDelimiter :=
            ⟨delimiterEq ▸ plain.noBlank, delimiterEq ▸ plain.noOpener,
              delimiterEq ▸ plain.noMark⟩
          have decided := (lexOne?_spec step).1
          rw [ih plainThen (delimiterEq ▸ oneLine)
            (aheadEq ▸ endsLine_drop ends _)
            (lexerEq ▸ (Lexer.outcome_step decided).proper proper)
            ((firstStatement_lexOne plain step probe noTerminator unit).mpr
              first)
            (whole.trans (pending_lexOne step).symm), delimiterEq, statementsEq]
          rfl

theorem push_directiveLine (made : MadeOfMarks delimiter) (inForce : Delimiter)
    (statements : Nat) :
    ({ delimiter := inForce, statements := statements } :
        StatementAssembler).push (directiveLine delimiter) =
      ({ delimiter := delimiter, statements := statements },
        [⟨.directive, true, directiveLine delimiter⟩]) := by
  have probe : (({ delimiter := inForce, statements := statements } :
      StatementAssembler).withMore (directiveLine delimiter)).directiveProbe
        false =
        .found (directiveLine delimiter).length := by
    have atEnd := directiveProbe_directiveLine made []
    rw [List.append_nil] at atEnd
    have broken := List.mem_of_getLast? (getLast?_directiveLine delimiter)
    exact (directiveProbe_false_eq broken).trans atEnd
  have taken := takeDirective_directiveLine made [] inForce statements
  rw [List.append_nil] at taken
  have moves : (({ delimiter := inForce, statements := statements } :
      StatementAssembler).withMore (directiveLine delimiter)).move? false =
        some ({ delimiter := delimiter, statements := statements },
          some ⟨.directive, true, directiveLine delimiter⟩) := by
    rw [move?, probe]
    dsimp only
    rw [taken]
  rw [push_eq, run_nil_of_some moves, run_of_nothing false rfl]
  rfl

end StatementAssembler

/-- The line is one statement: the delimiter stands in code for the first time
in front of the line break, and no directive comes first. -/
structure EndsAtDelimiter (delimiter : Delimiter) (line : Text) : Prop where
  ends : ∃ front, line = front ++ (delimiter.text ++ ['\n']) ∧
    ({} : Lexer).FirstInCode delimiter.text line front.length
  noDirective : ¬BeginsDirective line

theorem EndsAtDelimiter.endsLine (ends : EndsAtDelimiter delimiter line) :
    endsLine line = true := by
  obtain ⟨front, rfl, -⟩ := ends.ends
  exact endsLine_iff.mpr
    (.inr ⟨front ++ delimiter.text, (List.append_assoc _ _ _).symm⟩)

theorem StatementAssembler.push_line (made : MadeOfMarks delimiter)
    (ends : EndsAtDelimiter delimiter line) (statements : Nat) :
    ({ delimiter := delimiter, statements := statements } :
        StatementAssembler).push line =
      ({ delimiter := delimiter, statements := statements + 1 },
        [⟨.statement, true, line⟩]) := by
  have oneLine : '\n' ∉ delimiter.text := fun member =>
    absurd (made.visible _ member) (by decide)
  have lineEnds := ends.endsLine
  have first : (({ delimiter := delimiter, statements := statements } :
      StatementAssembler).withMore line).FirstStatement ⟨.statement,
        true, line⟩ := by
    refine ⟨fun directs => ends.noDirective directs.found, ?_⟩
    obtain ⟨front, lineEq, found⟩ := ends.ends
    have split : line = (front ++ delimiter.text) ++ ['\n'] :=
      lineEq.trans (List.append_assoc _ _ _).symm
    have behind : line.drop (front.length + delimiter.text.length) =
        ['\n'] := by
      rw [split, ← List.length_append, List.drop_left]
    have whole : line.take (front.length + delimiter.text.length + 1) = line :=
      List.take_of_length_le (by simp [split, Nat.add_assoc])
    refine ⟨front.length, 1, found,
      (congrArg (unitTail? true) behind).trans rfl, ?_⟩
    exact congrArg (StatementUnit.mk .statement true) whole.symm
  have last : line.getLast? = some '\n' := by
    obtain ⟨front, rfl, -⟩ := ends.ends
    simp
  rw [push_eq,
    run_of_firstStatement false (made.plainDelimiter _ rfl) oneLine lineEnds
      Lexer.proper_start first rfl]
  simp [withMore, last]

end SqlDump
