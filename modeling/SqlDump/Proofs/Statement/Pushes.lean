import SqlDump.Proofs.Lexer.Decision
import SqlDump.Statement

/-!
# Pushes compose

A move that the text ahead decides is the same move when more text stands behind
it.  So the units that leave an assembler do not depend on how the stream was
cut: pushing a text and finishing gives the units of an assembler that has the
whole text ahead and the end in sight.
-/

namespace SqlDump

section Directives

variable {text : Text} {length : Nat}

theorem le_length_of_drop {count : Nat} {head : Char} {tail : Text}
    (dropped : text.drop count = head :: tail) : count ≤ text.length := by
  have lengths := congrArg List.length dropped
  simp only [List.length_drop, List.length_cons] at lengths
  omega

theorem directiveLength_append_of_found (atEnd : Bool) (more : Text)
    (found : directiveLength false text = .found length) :
    directiveLength atEnd (text ++ more) = .found length := by
  unfold directiveLength at found ⊢
  split at found
  · split at found <;> simp at found
  · next separator tail dropped =>
      have enough := le_length_of_drop dropped
      rw [List.drop_append_of_le_length enough,
        List.take_append_of_le_length enough, dropped]
      simp only [List.cons_append]
      split at found
      · next keyword =>
          rw [if_pos keyword]
          by_cases broken : (text.takeWhile (· != '\n')).length < text.length
          · have sameLine :=
              Lexer.takeWhile_append_of_length_ne more (Nat.ne_of_lt broken)
            have stillBroken :
                (text.takeWhile (· != '\n')).length <
                  (text ++ more).length := by
              rw [List.length_append]
              omega
            simp only [broken, if_true] at found
            simp only [sameLine, stillBroken, if_true]
            exact found
          · simp [broken] at found
      · simp at found

private theorem sameAsciiWord_take {left right : Text} (count : Nat)
    (same : Text.sameAsciiWord left right = true) :
    Text.sameAsciiWord (left.take count) (right.take count) = true := by
  simp only [Text.sameAsciiWord, beq_iff_eq, List.map_take] at same ⊢
  rw [same]

private theorem directiveLength_append_of_absent (atEnd : Bool) (more : Text)
    (absent : directiveLength false text = .absent) :
    directiveLength atEnd (text ++ more) = .absent := by
  unfold directiveLength at absent ⊢
  split at absent
  · next short =>
      have atMost : text.length ≤ directiveKeyword.length := by
        have lengths := congrArg List.length short
        simp only [List.length_drop, List.length_nil] at lengths
        omega
      have other : Text.sameAsciiWord (directiveKeyword.take text.length) text =
          false := by
        refine Bool.eq_false_iff.mpr fun same => ?_
        simp [same] at absent
      -- A text that does not begin like the keyword does not do so when it
      -- grows.
      have otherThen : ∀ wanted found : Text,
          wanted.take text.length = directiveKeyword.take text.length →
          found.take text.length = text →
            Text.sameAsciiWord wanted found = false := by
        intro wanted found wantedEq foundEq
        refine Bool.eq_false_iff.mpr fun same => ?_
        have prefixes := sameAsciiWord_take text.length same
        rw [wantedEq, foundEq, other] at prefixes
        exact Bool.false_ne_true prefixes
      split
      · next stillShort =>
          rw [otherThen _ _ _ (List.take_left' rfl)]
          · rfl
          · rw [List.take_take, List.length_append, Nat.min_eq_left (by omega)]
      · rw [otherThen _ _ rfl _]
        · rfl
        · rw [List.take_take, Nat.min_eq_left atMost]
          exact List.take_left' rfl
  · next separator tail dropped =>
      have enough := le_length_of_drop dropped
      rw [List.drop_append_of_le_length enough,
        List.take_append_of_le_length enough, dropped]
      simp only [List.cons_append]
      by_cases keyword :
          (Text.sameAsciiWord directiveKeyword
            (text.take directiveKeyword.length) &&
            isPadding separator) = true
      · simp only [keyword, if_true] at absent
        split at absent <;> simp at absent
      · rw [if_neg keyword]

theorem directiveLength_le {atEnd : Bool}
    (found : directiveLength atEnd text = .found length) :
    length ≤ text.length := by
  have lineFits := Lexer.length_takeWhile_le (· != '\n') text
  unfold directiveLength at found
  grind

end Directives

private theorem unitTail?_append {behind : Text} {count : Nat} (atEnd : Bool)
    (more : Text) (known : unitTail? false behind = some count) :
    unitTail? atEnd (behind ++ more) = some count := by
  have stops : (behind.takeWhile isPadding).length ≠ behind.length := by
    intro all
    simp [unitTail?, all] at known
  have samePadding := Lexer.takeWhile_append_of_length_ne more stops
  have fits := Lexer.length_takeWhile_le isPadding behind
  simp only [unitTail?, samePadding, List.drop_append_of_le_length fits]
    at known ⊢
  generalize behind.drop (behind.takeWhile isPadding).length = left at known ⊢
  match left with
  | [] => simp at known
  | [_] => grind
  | _ :: _ :: _ => grind

theorem unitTail?_le {behind : Text} {count : Nat} {atEnd : Bool}
    (known : unitTail? atEnd behind = some count) : count ≤ behind.length := by
  have lengths := List.length_drop (i := (behind.takeWhile isPadding).length)
    (l := behind)
  have fits := Lexer.length_takeWhile_le isPadding behind
  unfold unitTail? at known
  grind

theorem head?_append_of_ne_nil {text : Text} (more : Text)
    (nonempty : text ≠ []) :
    (text ++ more).head? = text.head? := by
  cases text with
  | nil => exact absurd rfl nonempty
  | cons head tail => rfl

namespace StatementAssembler

def withMore (assembler : StatementAssembler) (more : Text) :
    StatementAssembler :=
  { assembler with ahead := assembler.ahead ++ more }

@[simp] theorem ahead_withMore (assembler : StatementAssembler) (more : Text) :
    (assembler.withMore more).ahead = assembler.ahead ++ more := rfl

@[simp] theorem withMore_nil (assembler : StatementAssembler) :
    assembler.withMore [] = assembler := by
  simp [withMore]

@[simp] theorem withMore_withMore (assembler : StatementAssembler)
    (first second : Text) :
    (assembler.withMore first).withMore second =
      assembler.withMore (first ++ second) := by
  simp [withMore]

variable {assembler moved : StatementAssembler}
  {finished : Option StatementUnit}

private theorem lexOne?_withMore (atEnd : Bool) (more : Text)
    (success : assembler.lexOne? false = some moved) :
    (assembler.withMore more).lexOne? atEnd = some (moved.withMore more) := by
  unfold lexOne? at success
  dsimp only at success
  split at success
  · simp at success
  · next decided =>
      have sameStep := Lexer.step_append atEnd more decided
      have fits := assembler.lexer.consumed_step_le false assembler.ahead
      have nonempty : assembler.ahead ≠ [] := by
        intro empty
        simp [empty, Lexer.step] at decided
      have sameHead : (assembler.ahead ++ more).head? = assembler.ahead.head? :=
        head?_append_of_ne_nil more nonempty
      simp only [Option.some.injEq] at success
      subst success
      simp only [lexOne?, withMore, sameStep, sameHead, decided, if_false,
        List.take_append_of_le_length fits, List.drop_append_of_le_length fits]

private theorem directiveProbe_withMore_of_found {length : Nat} (atEnd : Bool)
    (more : Text) (found : assembler.directiveProbe false = .found length) :
    (assembler.withMore more).directiveProbe atEnd = .found length := by
  unfold directiveProbe at found ⊢
  split at found
  · next keyword =>
      have nonempty : assembler.ahead ≠ [] := by
        intro empty
        simp [empty] at keyword
      have sameHead := head?_append_of_ne_nil more nonempty
      rw [if_pos (by simpa [withMore, sameHead] using keyword)]
      exact directiveLength_append_of_found atEnd more found
  · simp at found

private theorem directiveProbe_withMore_of_absent (atEnd : Bool) (more : Text)
    (nonempty : assembler.ahead ≠ [])
    (absent : assembler.directiveProbe false = .absent) :
    (assembler.withMore more).directiveProbe atEnd = .absent := by
  have sameHead := head?_append_of_ne_nil more nonempty
  unfold directiveProbe at absent ⊢
  split at absent
  · next keyword =>
      rw [if_pos (by simpa [withMore, sameHead] using keyword)]
      exact directiveLength_append_of_absent atEnd more absent
  · next noKeyword =>
      rw [if_neg (by simpa [withMore, sameHead] using noKeyword)]

private theorem length_directiveProbe_le {atEnd : Bool} {length : Nat}
    (found : assembler.directiveProbe atEnd = .found length) :
    length ≤ assembler.ahead.length := by
  unfold directiveProbe at found
  split at found
  · exact directiveLength_le found
  · simp at found

private theorem takeDirective_withMore {length : Nat} (more : Text)
    (fits : length ≤ assembler.ahead.length) :
    (assembler.withMore more).takeDirective length =
      ((assembler.takeDirective length).1.withMore more,
        (assembler.takeDirective length).2) := by
  have sameLine : (assembler.ahead ++ more).take length =
      assembler.ahead.take length :=
    List.take_append_of_le_length fits
  simp only [takeDirective, withMore, cut, sameLine,
    List.drop_append_of_le_length fits]

private theorem takeStatement_withMore {tailLength : Nat} (more : Text)
    (fits : assembler.delimiter.text.length + tailLength ≤
        assembler.ahead.length) :
    (assembler.withMore more).takeStatement tailLength =
      ((assembler.takeStatement tailLength).1.withMore more,
        (assembler.takeStatement tailLength).2) := by
  simp only [takeStatement, withMore, cut, List.take_append_of_le_length fits,
    List.drop_append_of_le_length fits]

theorem behindDelimiter?_eq_some_iff {behind : Text} :
    assembler.behindDelimiter? = some behind ↔
      assembler.lexer.atTopLevel = true ∧
        assembler.ahead = assembler.delimiter.text ++ behind := by
  unfold behindDelimiter?
  split
  · next top => rw [Text.after?_eq_some_iff]; simp [top]
  · next notTop => simp [notTop]

/-- Text that is no part of the terminator does not become one. -/
theorem behindDelimiter?_withMore_of_none (more : Text)
    (absent : assembler.behindDelimiter? = none)
    (noStart : assembler.beginsDelimiter = false) :
    (assembler.withMore more).behindDelimiter? = none := by
  refine Option.eq_none_iff_forall_ne_some.mpr fun behind found => ?_
  obtain ⟨top, split⟩ := behindDelimiter?_eq_some_iff.mp found
  change assembler.lexer.atTopLevel = true at top
  change assembler.ahead ++ more = assembler.delimiter.text ++ behind at split
  rcases List.append_eq_append_iff.mp split with
    ⟨missing, delimiterEq, _⟩ | ⟨left, aheadEq, _⟩
  · have begins : assembler.beginsDelimiter = true := by
      simp [beginsDelimiter, top, delimiterEq]
    simp [noStart] at begins
  · have known := behindDelimiter?_eq_some_iff.mpr ⟨top, aheadEq⟩
    simp [absent] at known

private theorem beginsDelimiter_withMore_of_false (more : Text)
    (noStart : assembler.beginsDelimiter = false) :
    (assembler.withMore more).beginsDelimiter = false := by
  refine Bool.eq_false_iff.mpr fun begins => ?_
  simp only [beginsDelimiter, withMore, Bool.and_eq_true,
    List.isPrefixOf_iff_prefix] at begins
  have start : assembler.beginsDelimiter = true := by
    simp only [beginsDelimiter, Bool.and_eq_true, List.isPrefixOf_iff_prefix]
    exact ⟨begins.1, (List.prefix_append _ _).trans begins.2⟩
  rw [noStart] at start
  exact Bool.false_ne_true start

/-- A move that the text ahead decides does not depend on what follows. -/
theorem move?_withMore (atEnd : Bool) (more : Text)
    (success : assembler.move? false = some (moved, finished)) :
    (assembler.withMore more).move? atEnd =
      some (moved.withMore more, finished) := by
  have nonempty : assembler.ahead ≠ [] := by
    intro empty
    have shorter := length_move?_lt success
    simp [empty] at shorter
  unfold move? at success ⊢
  cases probe : assembler.directiveProbe false with
  | needMore => simp [probe] at success
  | found length =>
      have fits := length_directiveProbe_le probe
      simp only [probe, Option.some.injEq, Prod.mk.injEq] at success
      obtain ⟨rfl, rfl⟩ := success
      rw [directiveProbe_withMore_of_found atEnd more probe]
      simp only [takeDirective_withMore more fits]
  | absent =>
      rw [directiveProbe_withMore_of_absent atEnd more nonempty probe]
      simp only [probe] at success ⊢
      cases terminator : assembler.behindDelimiter? with
      | some behind =>
          simp only [terminator, Option.map_eq_some_iff, Prod.mk.injEq]
            at success
          obtain ⟨tailLength, known, rfl, rfl⟩ := success
          obtain ⟨top, aheadEq⟩ := behindDelimiter?_eq_some_iff.mp terminator
          have stillThere : (assembler.withMore more).behindDelimiter? =
              some (behind ++ more) :=
            behindDelimiter?_eq_some_iff.mpr
              ⟨top, by simp [withMore, aheadEq, List.append_assoc]⟩
          have fits :
              assembler.delimiter.text.length + tailLength ≤
                assembler.ahead.length := by
            have tailFits := unitTail?_le known
            rw [aheadEq, List.length_append]
            omega
          simp only [stillThere, unitTail?_append atEnd more known,
            Option.map_some, takeStatement_withMore more fits]
      | none =>
          simp only [terminator, Bool.not_false, Bool.true_and] at success
          split at success
          · simp at success
          · next noStart =>
              have noStart : assembler.beginsDelimiter = false := by
                simpa using noStart
              simp only [Option.map_eq_some_iff, Prod.mk.injEq] at success
              obtain ⟨lexed, step, rfl, rfl⟩ := success
              rw [behindDelimiter?_withMore_of_none more terminator noStart,
                beginsDelimiter_withMore_of_false more noStart,
                lexOne?_withMore atEnd more step]
              simp

/-- What one move can do. -/
inductive Move (atEnd : Bool) (assembler : StatementAssembler) :
    StatementAssembler → Option StatementUnit → Prop where
  | directive {length : Nat}
      (probe : assembler.directiveProbe atEnd = .found length) :
      Move atEnd assembler (assembler.takeDirective length).1
        (some (assembler.takeDirective length).2)
  | statement {behind : Text} {tailLength : Nat}
      (terminator : assembler.behindDelimiter? = some behind)
      (known : unitTail? atEnd behind = some tailLength)
      (noDirective : assembler.directiveProbe atEnd = .absent) :
      Move atEnd assembler (assembler.takeStatement tailLength).1
        (some (assembler.takeStatement tailLength).2)
  | lexed {moved : StatementAssembler}
      (step : assembler.lexOne? atEnd = some moved)
      (noDirective : assembler.directiveProbe atEnd = .absent)
      (noTerminator : assembler.behindDelimiter? = none) :
      Move atEnd assembler moved none

theorem move_of_move? {atEnd : Bool}
    (moves : assembler.move? atEnd = some (moved, finished)) :
    Move atEnd assembler moved finished := by
  unfold move? at moves
  split at moves
  · simp at moves
  · next length probe =>
      simp only [Option.some.injEq, Prod.mk.injEq] at moves
      obtain ⟨rfl, rfl⟩ := moves
      exact .directive probe
  · next noDirective =>
      split at moves
      · next behind terminator =>
          simp only [Option.map_eq_some_iff, Prod.mk.injEq] at moves
          obtain ⟨tailLength, known, rfl, rfl⟩ := moves
          exact .statement terminator known noDirective
      · next noTerminator =>
          split at moves
          · simp at moves
          · simp only [Option.map_eq_some_iff, Prod.mk.injEq] at moves
            obtain ⟨lexed, step, rfl, rfl⟩ := moves
            exact .lexed step noDirective noTerminator

theorem lexOne?_spec {atEnd : Bool}
    (step : assembler.lexOne? atEnd = some moved) :
    let taken := (assembler.lexer.step atEnd assembler.ahead).1
    taken ≠ .needMore ∧
      moved.lexer = (assembler.lexer.step atEnd assembler.ahead).2 ∧
      moved.ahead = assembler.ahead.drop taken.consumed ∧
      moved.lexed = (assembler.ahead.take taken.consumed).reverse ++
        assembler.lexed ∧
      (moved.delimiter = assembler.delimiter ∧
        moved.atLineStart = assembler.atLineStart) ∧
      moved.statements = assembler.statements := by
  intro taken
  unfold lexOne? at step
  dsimp only at step
  split at step
  · simp at step
  · next decided =>
      simp only [Option.some.injEq] at step
      subst step
      exact ⟨decided, rfl, rfl, rfl, ⟨rfl, rfl⟩, rfl⟩

theorem move_induction (atEnd : Bool) {motive : StatementAssembler → Prop}
    (stop : ∀ assembler, assembler.move? atEnd = none → motive assembler)
    (step : ∀ assembler moved finished,
      assembler.move? atEnd = some (moved, finished) → motive moved →
      motive assembler) (assembler : StatementAssembler) :
    motive assembler := by
  induction size : assembler.ahead.length using Nat.strongRecOn
    generalizing assembler with
  | _ size ih =>
      cases moves : assembler.move? atEnd with
      | none => exact stop assembler moves
      | some next =>
          have shorter := length_move?_lt moves
          exact step assembler next.1 next.2 moves
            (ih next.1.ahead.length (size ▸ shorter) next.1 rfl)

theorem move?_of_nothing (atEnd : Bool) (nothing : assembler.ahead = []) :
    assembler.move? atEnd = none := by
  refine Option.eq_none_iff_forall_ne_some.mpr fun next moves => ?_
  have shorter := length_move?_lt moves
  simp [nothing] at shorter

theorem run_of_none {atEnd : Bool} {assembler : StatementAssembler}
    (found : List StatementUnit) (stops : assembler.move? atEnd = none) :
    run atEnd assembler found = (assembler, found.reverse) := by
  rw [run]
  split
  · rfl
  · next moves => simp [stops] at moves

theorem run_of_some {atEnd : Bool} (found : List StatementUnit)
    (moves : assembler.move? atEnd = some (moved, finished)) :
    run atEnd assembler found = run atEnd moved (finished.toList ++ found) := by
  rw [run]
  split
  · next stops => simp [moves] at stops
  · next next finishedNow movesNow =>
      simp only [moves, Option.some.injEq, Prod.mk.injEq] at movesNow
      obtain ⟨rfl, rfl⟩ := movesNow
      rfl

private theorem run_eq_append (atEnd : Bool) (assembler : StatementAssembler)
    (found : List StatementUnit) :
    run atEnd assembler found =
      ((run atEnd assembler []).1,
        found.reverse ++ (run atEnd assembler []).2) := by
  induction assembler using move_induction atEnd generalizing found with
  | stop assembler stops => simp [run_of_none _ stops]
  | step assembler moved finished moves ih =>
      rw [run_of_some found moves, run_of_some [] moves, ih,
        ih (finished.toList ++ [])]
      simp

theorem run_nil_of_some {atEnd : Bool}
    (moves : assembler.move? atEnd = some (moved, finished)) :
    run atEnd assembler [] =
      ((run atEnd moved []).1, finished.toList ++ (run atEnd moved []).2) := by
  rw [run_of_some [] moves, run_eq_append]
  cases finished <;> rfl

/-- What is decided early is what a run over the whole text decides. -/
theorem run_withMore (atEnd : Bool) (assembler : StatementAssembler)
    (more : Text) :
    run atEnd (assembler.withMore more) [] =
      ((run atEnd ((run false assembler []).1.withMore more) []).1,
        (run false assembler []).2 ++
          (run atEnd ((run false assembler []).1.withMore more) []).2) := by
  induction assembler using move_induction false with
  | stop assembler stops => simp [run_of_none [] stops]
  | step assembler moved finished moves ih =>
      rw [run_nil_of_some (move?_withMore atEnd more moves),
        run_nil_of_some moves, ih]
      simp

theorem push_eq (assembler : StatementAssembler) (text : Text) :
    assembler.push text = run false (assembler.withMore text) [] := rfl

/-- Finishing with a text ahead is pushing the first part of it and finishing
with the rest. -/
theorem finish_withMore (assembler : StatementAssembler) (first second : Text) :
    (assembler.withMore (first ++ second)).finish =
      (((assembler.push first).1.withMore second).finish.1,
        (assembler.push first).2 ++
        ((assembler.push first).1.withMore second).finish.2.1,
        ((assembler.push first).1.withMore second).finish.2.2) := by
  have whole := run_withMore true (assembler.withMore first) second
  rw [withMore_withMore] at whole
  unfold finish
  rw [whole, push_eq]
  simp only [List.append_assoc]

private theorem statements_move? {atEnd : Bool}
    (moves : assembler.move? atEnd = some (moved, finished)) :
    moved.statements =
      assembler.statements + finished.toList.countP (·.kind == .statement) := by
  cases move_of_move? moves with
  | directive probe => simp [takeDirective, cut]
  | statement terminator known => simp [takeStatement, cut]
  | lexed step noDirective noTerminator =>
      rw [(lexOne?_spec step).2.2.2.2.2]; rfl

private theorem statements_run (atEnd : Bool) (assembler : StatementAssembler) :
    (run atEnd assembler []).1.statements =
      assembler.statements + (run atEnd assembler []).2.countP
        (·.kind == .statement) := by
  induction assembler using move_induction atEnd with
  | stop assembler stops => simp [run_of_none [] stops]
  | step assembler moved finished moves ih =>
      rw [run_nil_of_some moves, List.countP_append, ih, statements_move? moves,
        Nat.add_assoc]

theorem statements_finish (assembler : StatementAssembler) :
    assembler.finish.1.statements =
      assembler.statements + assembler.finish.2.1.countP
        (·.kind == .statement) := by
  simp only [finish, statements_run, List.countP_append]
  split <;> simp

end StatementAssembler

/-- The units of a text that is there as a whole. -/
def unitsOf (text : Text) : List StatementUnit :=
  (({} : StatementAssembler).withMore text).finish.2.1

/-- The preview of a statement that the end of the text cuts off. -/
def unfinishedPreview? (text : Text) : Option Text :=
  (({} : StatementAssembler).withMore text).finish.2.2

end SqlDump
