import SqlDump.Proofs.Guard.Reading
import SqlDump.Proofs.Lexer.Place
import SqlDump.Proofs.Statement.Concatenation

/-!
# A terminator in code ends a statement

While the semicolon is in force, a semicolon in top-level code ends a unit,
together with the padding and the line break behind it, unless a directive in
front of it changes the terminator.
-/

namespace SqlDump

/-- One of the units ends with the semicolon at the position and what belongs to
it. -/
def EndsStatementAt (text : Text) (units : List StatementUnit)
    (position : Nat) : Prop :=
  ∃ first last rest tailLength, units = first ++ last :: rest ∧
    last.kind = .statement ∧
    unitTail? true (text.drop (position + 1)) = some tailLength ∧
    (first ++ [last]).flatMap StatementUnit.text =
      text.take (position + 1 + tailLength)

/-- One of the units that begin at the position or in front of it is a
directive. -/
def DirectiveBefore (units : List StatementUnit) (position : Nat) : Prop :=
  ∃ first directive rest, units = first ++ directive :: rest ∧
    directive.kind = .directive ∧
    (first.flatMap StatementUnit.text).length ≤ position

theorem EndsStatementAt.cons {text : Text} {units : List StatementUnit}
    {position : Nat} (unit : StatementUnit)
    (ends : EndsStatementAt text units position) :
    EndsStatementAt (unit.text ++ text) (unit :: units)
      (unit.text.length + position) := by
  obtain ⟨first, last, rest, tailLength, rfl, statement, known, joined⟩ := ends
  refine ⟨unit :: first, last, rest, tailLength, rfl, statement, ?_, ?_⟩
  · rwa [Nat.add_assoc, List.drop_length_add_append]
  · have further : unit.text.length + position + 1 + tailLength =
        unit.text.length + (position + 1 + tailLength) := by omega
    rw [List.cons_append, List.flatMap_cons, joined, further,
      List.take_length_add_append]

theorem DirectiveBefore.cons {units : List StatementUnit} {position : Nat}
    (unit : StatementUnit) (before : DirectiveBefore units position) :
    DirectiveBefore (unit :: units) (unit.text.length + position) := by
  obtain ⟨first, directive, rest, rfl, kind, early⟩ := before
  refine ⟨unit :: first, directive, rest, rfl, kind, ?_⟩
  rw [List.flatMap_cons, List.length_append]
  omega

theorem unitTail?_plain {behind : Text} {tailLength : Nat} {atEnd : Bool}
    (known : unitTail? atEnd behind = some tailLength) :
    ∀ character ∈ behind.take tailLength, isAsciiBlank character = true := by
  have pads : ∀ character ∈ behind.takeWhile isPadding, isAsciiBlank character =
      true := by
    intro character member
    have pad := List.all_eq_true.mp List.all_takeWhile character member
    simp only [isPadding, Bool.or_eq_true, beq_iff_eq] at pad
    rcases pad with rfl | rfl <;> decide
  have parts : behind.takeWhile isPadding ++ behind.dropWhile isPadding =
      behind :=
    List.takeWhile_append_dropWhile
  unfold unitTail? at known
  generalize behind.takeWhile isPadding = padding at pads parts known
  generalize behind.dropWhile isPadding = later at parts
  subst parts
  dsimp only at known
  rw [List.drop_left] at known
  have takes (piece rest : Text) (laterEq : later = piece ++ rest)
      (blank : ∀ character ∈ piece, isAsciiBlank character = true) :
      ∀ character ∈ (padding ++ later).take (padding.length + piece.length),
        isAsciiBlank character = true := by
    rw [laterEq, ← List.append_assoc, List.take_left' (List.length_append ..)]
    intro character member
    rcases List.mem_append.mp member with pad | other
    · exact pads character pad
    · exact blank character other
  split at known
  · split at known
    · obtain rfl := Option.some.inj known
      exact takes [] [] rfl (List.forall_mem_nil _)
    · simp at known
  · next rest =>
      obtain rfl := Option.some.inj known
      exact takes ['\n'] rest rfl (by simp [isAsciiBlank])
  · next rest =>
      obtain rfl := Option.some.inj known
      exact takes ['\r', '\n'] rest rfl (by simp [isAsciiBlank])
  · split at known
    · obtain rfl := Option.some.inj known
      simp
    · simp at known
  · obtain rfl := Option.some.inj known
    simp

private theorem directiveLength_true_ne_needMore (text : Text) :
    directiveLength true text ≠ .needMore := by
  unfold directiveLength
  split
  · simp
  · split
    · dsimp only
      split <;> simp
    · simp

theorem unitTail?_true_ne_none (behind : Text) :
    unitTail? true behind ≠ none := by
  unfold unitTail?
  dsimp only
  split <;> simp

namespace StatementAssembler

variable {assembler moved : StatementAssembler}

/-- With the end in sight a move is possible as long as there is text. -/
theorem move?_true_ne_none (nonempty : assembler.ahead ≠ []) :
    assembler.move? true ≠ none := by
  intro stops
  unfold move? at stops
  split at stops
  · next undecided =>
      unfold directiveProbe at undecided
      split at undecided
      · exact directiveLength_true_ne_needMore _ undecided
      · simp at undecided
  · simp at stops
  · split at stops
    · next behind terminator =>
        exact unitTail?_true_ne_none behind (Option.map_eq_none_iff.mp stops)
    · obtain ⟨head, tail, aheadEq⟩ := List.exists_cons_of_ne_nil nonempty
      have decided := assembler.lexer.step_true_ne_needMore head tail
      simp [lexOne?, aheadEq, decided] at stops

/-- A semicolon that is in force and stands in code in the text ahead. -/
structure TerminatorAhead (assembler : StatementAssembler) (count : Nat) :
    Prop where
  inForce : assembler.delimiter = .semicolon
  inCode : assembler.lexer.inCodeAt assembler.ahead count = true
  here : assembler.ahead[count]? = some ';'

theorem TerminatorAhead.takeStatement {count tailLength : Nat} {behind : Text}
    (terminator : assembler.TerminatorAhead (count + 1))
    (aheadEq : assembler.ahead = ';' :: behind)
    (top : assembler.lexer.atTopLevel = true)
    (known : unitTail? true behind = some tailLength) :
    tailLength ≤ count ∧
      (assembler.takeStatement tailLength).1.TerminatorAhead
        (count - tailLength) := by
  obtain ⟨inForce, inCode, here⟩ := terminator
  have blank := unitTail?_plain known
  have fits := unitTail?_le known
  rw [aheadEq, Lexer.inCodeAt_of_plain behind count top (by decide)] at inCode
  rw [aheadEq, List.getElem?_cons_succ] at here
  have within : tailLength ≤ count := by
    apply Nat.le_of_not_lt
    intro beyond
    have member : ';' ∈ behind.take tailLength :=
      List.mem_of_getElem? (by rwa [List.getElem?_take_of_lt beyond])
    exact absurd (blank ';' member) (by decide)
  have aheadMoved : (assembler.takeStatement tailLength).1.ahead =
      behind.drop tailLength := by
    change assembler.ahead.drop (assembler.delimiter.text.length + tailLength) =
      _
    rw [inForce, aheadEq, Nat.add_comm]
    rfl
  have noOpener : ∀ character ∈ behind.take tailLength,
      character ∉ Lexer.openers :=
    fun character member =>
      Lexer.not_mem_openers_of_isBlank
        (isBlank_of_isAsciiBlank (blank character member))
  have skips := Lexer.inCodeAt_plains (behind.drop tailLength) top noOpener
    (count - tailLength)
  rw [List.take_append_drop, List.length_take, Nat.min_eq_left fits,
    Nat.add_sub_cancel' within]
    at skips
  refine ⟨within, inForce, ?_, ?_⟩
  · rw [aheadMoved]
    exact skips.symm.trans inCode
  · rwa [aheadMoved, List.getElem?_drop, Nat.add_sub_cancel' within]

theorem TerminatorAhead.lexOne {count : Nat}
    (terminator : assembler.TerminatorAhead (count + 1))
    (step : assembler.lexOne? true = some moved) :
    ∃ later, moved.TerminatorAhead later ∧
      moved.lexed.length + later = assembler.lexed.length + (count + 1) := by
  obtain ⟨inForce, inCode, here⟩ := terminator
  obtain ⟨-, lexerEq, aheadMoved, lexedEq, ⟨sameDelimiter, -⟩, -⟩ :=
    lexOne?_spec step
  cases aheadEq : assembler.ahead with
  | nil => simp [aheadEq] at here
  | cons head tail =>
      rw [aheadEq] at inCode here lexerEq aheadMoved lexedEq
      have fits := assembler.lexer.taken_le (head :: tail)
      rw [Lexer.inCodeAt] at inCode
      by_cases within : assembler.lexer.taken (head :: tail) ≤ count + 1
      · rw [if_pos within] at inCode
        refine ⟨count + 1 - assembler.lexer.taken (head :: tail),
          ⟨sameDelimiter.trans inForce, ?_, ?_⟩, ?_⟩
        · rw [lexerEq, aheadMoved]
          exact inCode
        · rw [aheadMoved, List.getElem?_drop]
          change (head :: tail)[assembler.lexer.taken (head :: tail) +
            (count + 1 - assembler.lexer.taken (head :: tail))]? = some ';'
          rwa [Nat.add_sub_cancel' within]
        · have lengthEq : moved.lexed.length =
              assembler.lexer.taken (head :: tail) +
              assembler.lexed.length := by
            rw [lexedEq, List.length_append, List.length_reverse,
              List.length_take]
            exact congrArg (· + _) (Nat.min_eq_left fits)
          omega
      · rw [if_neg within] at inCode
        simp only [Bool.and_eq_true] at inCode
        obtain ⟨later, markerEq, three, -⟩ :=
          Lexer.marker_of_stays inCode.1 inCode.2 (by omega)
        rw [three] at within
        rw [markerEq] at here
        obtain rfl | rfl : count = 0 ∨ count = 1 := by omega
        · simp at here
        · simp at here

theorem TerminatorAhead.behindDelimiter?
    (terminator : assembler.TerminatorAhead 0) :
    ∃ behind, assembler.behindDelimiter? = some behind := by
  obtain ⟨inForce, top, here⟩ := terminator
  rw [Lexer.inCodeAt_zero] at top
  rw [← List.head?_eq_getElem?] at here
  obtain ⟨behind, aheadEq⟩ := List.head?_eq_some_iff.mp here
  exact ⟨behind,
    behindDelimiter?_eq_some_iff.mpr ⟨top, by rw [aheadEq, inForce]; rfl⟩⟩

section

variable {behind : Text} {tailLength : Nat}

theorem text_takeStatement (inForce : assembler.delimiter = .semicolon)
    (aheadEq : assembler.ahead = ';' :: behind) :
    (assembler.takeStatement tailLength).2.text =
      assembler.lexed.reverse ++ ';' :: behind.take tailLength := by
  change
    ((assembler.ahead.take
      (assembler.delimiter.text.length + tailLength)).reverse ++
    assembler.lexed).reverse = _
  rw [inForce, aheadEq, List.reverse_append, List.reverse_reverse, Nat.add_comm]
  rfl

private theorem endsStatementAt_takeStatement
    (inForce : assembler.delimiter = .semicolon)
    (aheadEq : assembler.ahead = ';' :: behind)
    (known : unitTail? true behind = some tailLength)
    (later : List StatementUnit) :
    EndsStatementAt assembler.pending
      ((assembler.takeStatement tailLength).2 :: later)
      assembler.lexed.length := by
  have pendingEq : assembler.pending = assembler.lexed.reverse ++ ';' ::
      behind := by
    rw [pending, aheadEq]
  refine ⟨[], _, later, tailLength, rfl, rfl, ?_, ?_⟩
  · rw [pendingEq, ← List.length_reverse, List.drop_length_add_append]
    exact known
  · rw [List.nil_append, List.flatMap_singleton,
      text_takeStatement inForce aheadEq, pendingEq, ← List.length_reverse,
      Nat.add_assoc, List.take_length_add_append, Nat.add_comm]
    rfl

end

/-- The semicolon ends a statement, unless a directive comes first. -/
theorem run_of_terminator (assembler : StatementAssembler) {count : Nat}
    (terminator : assembler.TerminatorAhead count) :
    DirectiveBefore (run true assembler []).2 (assembler.lexed.length + count) ∨
      EndsStatementAt assembler.pending (run true assembler []).2
        (assembler.lexed.length + count) := by
  -- Until a statement ends at it, every move leaves the terminator ahead in
  -- code.
  induction assembler using move_induction true generalizing count with
  | stop assembler stops =>
      have nonempty : assembler.ahead ≠ [] := by
        intro empty
        simpa [empty] using terminator.here
      exact absurd stops (move?_true_ne_none nonempty)
  | step assembler moved finished moves ih =>
      rw [run_nil_of_some moves]
      cases move_of_move? moves with
      | directive probe =>
          exact .inl ⟨[], _, _, rfl, rfl, Nat.zero_le _⟩
      | @statement behind tailLength found known =>
          have inForce := terminator.inForce
          obtain ⟨top, delimited⟩ := behindDelimiter?_eq_some_iff.mp found
          have aheadEq : assembler.ahead = ';' :: behind := by
            rw [delimited, inForce]
            rfl
          cases count with
          | zero =>
              exact .inr (endsStatementAt_takeStatement inForce aheadEq known _)
          | succ count =>
              obtain ⟨within, stillAhead⟩ :=
                terminator.takeStatement aheadEq top known
              have parts : (assembler.takeStatement tailLength).2.text ++
                  (assembler.takeStatement tailLength).1.pending =
                    assembler.pending :=
                cut_spec .statement _
              have position :
                  (assembler.takeStatement tailLength).2.text.length +
                      (0 + (count - tailLength)) =
                    assembler.lexed.length + (count + 1) := by
                rw [text_takeStatement inForce aheadEq, List.length_append,
                  List.length_reverse, List.length_cons, List.length_take,
                  Nat.min_eq_left (unitTail?_le known)]
                omega
              rw [← position, ← parts]
              rcases ih stillAhead with before | ends
              · exact .inl (before.cons _)
              · exact .inr (ends.cons _)
      | lexed step noDirective noTerminator =>
          cases count with
          | zero =>
              obtain ⟨behind, found⟩ := terminator.behindDelimiter?
              rw [noTerminator] at found
              exact absurd found (Option.some_ne_none _).symm
          | succ count =>
              obtain ⟨later, stillAhead, position⟩ := terminator.lexOne step
              obtain ⟨-, -, aheadEq, lexedEq, -, -⟩ := lexOne?_spec step
              have same : moved.pending = assembler.pending := by
                simp [pending, aheadEq, lexedEq]
              have later := ih stillAhead
              rwa [position, same] at later

end StatementAssembler

/-- In a text that is there as a whole a semicolon in code ends a unit, unless a
directive comes first. -/
theorem unitsOf_terminator {text : Text} {position : Nat}
    (inCode : ({} : Lexer).inCodeAt text position = true)
    (here : text[position]? = some ';') :
    DirectiveBefore (unitsOf text) position ∨
      EndsStatementAt text (unitsOf text) position := by
  have found := StatementAssembler.run_of_terminator
    (({} : StatementAssembler).withMore text)
    ⟨rfl, inCode, here⟩
  obtain ⟨trailing, unitsEq⟩ : ∃ trailing, unitsOf text =
      (StatementAssembler.run true (({} : StatementAssembler).withMore text)
        []).2 ++ trailing :=
    ⟨_, rfl⟩
  rw [show (({} : StatementAssembler).withMore text).lexed.length + position =
    position from Nat.zero_add position] at found
  rw [unitsEq]
  rcases found with ⟨first, directive, rest, units, early⟩ |
    ⟨first, last, rest, count, units, ends⟩
  · left
    exact ⟨first, directive,
      rest ++ trailing, by rw [units, List.append_assoc]; rfl, early⟩
  · right
    exact ⟨first, last, rest ++ trailing,
      count, by rw [units, List.append_assoc]; rfl, ends⟩

end SqlDump
