import SqlDump.Proofs.Statement.Pushes

/-!
# Units join to their stream

Nothing gets lost between the units of a stream, whether or not the last one is
finished, and a unit knows whether it begins a line.
-/

namespace SqlDump

def endsLine (text : Text) : Bool :=
  match text.getLast? with
  | none => true
  | some last => last == '\n'

/-- The units stand behind `before`, and each knows whether it begins a line. -/
def BeginLines : Text → List StatementUnit → Prop
  | _, [] => True
  | before, unit :: units =>
      unit.atLineStart = endsLine before ∧
      BeginLines (before ++ unit.text) units

theorem beginLines_append {before : Text} {first second : List StatementUnit} :
    BeginLines before (first ++ second) ↔
      BeginLines before first ∧
        BeginLines (before ++ first.flatMap StatementUnit.text) second := by
  induction first generalizing before with
  | nil => simp [BeginLines]
  | cons unit units ih => simp [BeginLines, ih, and_assoc]

namespace StatementAssembler

def pending (assembler : StatementAssembler) : Text :=
  assembler.lexed.reverse ++ assembler.ahead

variable {assembler moved : StatementAssembler}
  {finished : Option StatementUnit}

theorem cut_spec (kind : UnitKind) (count : Nat) :
    (assembler.cut kind count).2.text ++ (assembler.cut kind count).1.pending =
      assembler.pending := by
  simp [cut, pending]

private theorem endsLine_append {before text : Text} (nonempty : text ≠ []) :
    endsLine (before ++ text) = (text.getLast? == some '\n') := by
  unfold endsLine
  cases last : text.getLast? with
  | none => exact absurd (List.getLast?_eq_none_iff.mp last) nonempty
  | some character => simp [List.getLast?_append, last]

/-- A unit that took something from the text ahead says how the next one
begins. -/
theorem atLineStart_cut (assembler : StatementAssembler) (kind : UnitKind)
    {count : Nat} (before : Text)
    (shorter : (assembler.cut kind count).1.ahead.length <
        assembler.ahead.length) :
    (assembler.cut kind count).1.atLineStart =
      endsLine (before ++ (assembler.cut kind count).2.text) := by
  have taken : assembler.ahead.take count ≠ [] := by
    intro none
    rw [length_ahead_cut] at shorter
    have lengths := congrArg List.length none
    rw [List.length_take, List.length_nil] at lengths
    omega
  rw [endsLine_append (by simp [cut, taken])]
  simp only [cut, List.getLast?_reverse]

private theorem move?_spec {atEnd : Bool} {before : Text}
    (moves : assembler.move? atEnd = some (moved, finished))
    (begins : assembler.atLineStart = endsLine before) :
    finished.toList.flatMap StatementUnit.text ++ moved.pending =
      assembler.pending ∧
      BeginLines before finished.toList ∧
      moved.atLineStart =
        endsLine (before ++ finished.toList.flatMap StatementUnit.text) := by
  have shorter := length_move?_lt moves
  cases move_of_move? moves with
  | directive probe =>
      have beginsNext := atLineStart_cut { assembler with delimiter := _ }
        .directive before shorter
      simp only [Option.toList_some, List.flatMap_cons, List.flatMap_nil,
        List.append_nil]
      exact ⟨cut_spec .directive _, ⟨begins, trivial⟩, beginsNext⟩
  | statement terminator known =>
      have beginsNext := atLineStart_cut { assembler with statements := _ }
        .statement before shorter
      simp only [Option.toList_some, List.flatMap_cons, List.flatMap_nil,
        List.append_nil]
      exact ⟨cut_spec .statement _, ⟨begins, trivial⟩, beginsNext⟩
  | lexed step noDirective noTerminator =>
      obtain ⟨_, _, aheadEq, lexedEq, ⟨_, sameStart⟩, _⟩ := lexOne?_spec step
      refine ⟨?_, trivial, ?_⟩
      · simp [pending, aheadEq, lexedEq]
      · simp [sameStart, begins]

theorem run_spec (atEnd : Bool) (assembler : StatementAssembler) (before : Text)
    (begins : assembler.atLineStart = endsLine before) :
    (run atEnd assembler []).2.flatMap StatementUnit.text ++
      (run atEnd assembler []).1.pending =
        assembler.pending ∧
      BeginLines before (run atEnd assembler []).2 ∧
      (run atEnd assembler []).1.atLineStart =
        endsLine (before ++ (run atEnd assembler []).2.flatMap
          StatementUnit.text) := by
  induction assembler using move_induction atEnd generalizing before with
  | stop assembler stops =>
      rw [run_of_none [] stops]
      simpa [BeginLines] using begins
  | step assembler moved finished moves ih =>
      obtain ⟨kept, beginsFirst, beginsNext⟩ := move?_spec moves begins
      obtain ⟨rest, beginsRest, last⟩ := ih _ beginsNext
      rw [run_nil_of_some moves]
      refine ⟨?_, ?_, ?_⟩
      · rw [List.flatMap_append, List.append_assoc, rest, kept]
      · exact beginLines_append.mpr ⟨beginsFirst, beginsRest⟩
      · rw [last, List.flatMap_append, List.append_assoc]

theorem finish_spec (assembler : StatementAssembler) (before : Text)
    (begins : assembler.atLineStart = endsLine before) :
    assembler.finish.2.1.flatMap StatementUnit.text = assembler.pending ∧
      BeginLines before assembler.finish.2.1 := by
  obtain ⟨kept, beginsUnits, last⟩ := run_spec true assembler before begins
  simp only [finish]
  split
  · next empty =>
      change (run true assembler []).1.pending = [] at empty
      rw [empty, List.append_nil] at kept
      rw [List.append_nil]
      exact ⟨kept, beginsUnits⟩
  · refine ⟨?_, beginLines_append.mpr ⟨beginsUnits, last, trivial⟩⟩
    rw [List.flatMap_append, List.flatMap_cons, List.flatMap_nil,
      List.append_nil]
    exact kept

end StatementAssembler

theorem unitsOf_spec (text : Text) :
    (unitsOf text).flatMap StatementUnit.text = text ∧
    BeginLines [] (unitsOf text) :=
  StatementAssembler.finish_spec _ [] rfl

end SqlDump
