import SqlDump.Proofs.Statement.Concatenation

/-!
# A stream that is pushed in chunks

Two texts pushed one after the other leave the assembler as the two in one push
leave it, and the same units leave on the way.  The units of a stream join to
the stream however it was cut, and a unit begins a line exactly if nothing or a
line break stands in front of it.
-/

namespace SqlDump

theorem endsLine_iff {text : Text} :
    endsLine text = true ↔ text = [] ∨ ∃ front, text = front ++ ['\n'] := by
  unfold endsLine
  constructor
  · intro ends
    cases last : text.getLast? with
    | none => exact .inl (List.getLast?_eq_none_iff.mp last)
    | some character =>
        simp only [last, beq_iff_eq] at ends
        subst ends
        obtain ⟨front, split⟩ := List.getLast?_eq_some_iff.mp last
        exact .inr ⟨front, split⟩
  · rintro (rfl | ⟨front, rfl⟩)
    · rfl
    · simp

theorem endsLine_drop {text : Text} (ends : endsLine text = true)
    (count : Nat) :
    endsLine (text.drop count) = true := by
  rcases endsLine_iff.mp ends with rfl | ⟨front, rfl⟩
  · rw [List.drop_nil]
    rfl
  · rcases Nat.lt_or_ge front.length count with beyond | within
    · rw [List.drop_eq_nil_of_le (by simp; omega)]
      rfl
    · rw [List.drop_append_of_le_length within]
      exact endsLine_iff.mpr (.inr ⟨_, rfl⟩)

theorem mem_of_endsLine {text : Text} (ends : endsLine text = true)
    (nonempty : text ≠ []) :
    '\n' ∈ text := by
  obtain ⟨front, rfl⟩ := (endsLine_iff.mp ends).resolve_left nonempty
  exact List.mem_append_right front List.mem_cons_self

/-- A unit behind other units begins a line if the text of those units ends
one. -/
theorem BeginLines.atLineStart {before : Text}
    {earlier later : List StatementUnit} {unit : StatementUnit}
    (begins : BeginLines before (earlier ++ unit :: later)) :
    unit.atLineStart =
      endsLine (before ++ earlier.flatMap StatementUnit.text) := by
  have behind := (beginLines_append.mp begins).2
  exact behind.1

namespace StatementAssembler

def pushAll (assembler : StatementAssembler) :
    List Text → StatementAssembler × List StatementUnit
  | [] => (assembler, [])
  | chunk :: chunks =>
      (((assembler.push chunk).1.pushAll chunks).1,
        (assembler.push chunk).2 ++ ((assembler.push chunk).1.pushAll chunks).2)

private theorem push_append (assembler : StatementAssembler)
    (first second : Text) :
    assembler.push (first ++ second) =
      (((assembler.push first).1.push second).1,
        (assembler.push first).2 ++
        ((assembler.push first).1.push second).2) := by
  have pushed := run_withMore false (assembler.withMore first) second
  rwa [withMore_withMore] at pushed

/-- Pushing the chunks and then running to the end is running to the end of
their whole text. -/
theorem run_withMore_flatten (assembler : StatementAssembler)
    (chunks : List Text) :
    run true (assembler.withMore chunks.flatten) [] =
      ((run true (assembler.pushAll chunks).1 []).1,
        (assembler.pushAll chunks).2 ++
        (run true (assembler.pushAll chunks).1 []).2) := by
  induction chunks generalizing assembler with
  | nil => simp [pushAll]
  | cons chunk chunks ih =>
      have first := run_withMore true (assembler.withMore chunk) chunks.flatten
      rw [withMore_withMore, ← push_eq, ih] at first
      rw [List.flatten_cons, first]
      simp only [pushAll, List.append_assoc]

private theorem finish_withMore_flatten (assembler : StatementAssembler)
    (chunks : List Text) :
    (assembler.withMore chunks.flatten).finish =
      ((assembler.pushAll chunks).1.finish.1,
        (assembler.pushAll chunks).2 ++ (assembler.pushAll chunks).1.finish.2.1,
        (assembler.pushAll chunks).1.finish.2.2) := by
  unfold finish
  rw [run_withMore_flatten]
  simp only [List.append_assoc]

end StatementAssembler

/-- The units of a stream that comes in chunks and then ends. -/
def unitsIn (chunks : List Text) : List StatementUnit :=
  (({} : StatementAssembler).pushAll chunks).2 ++
    (({} : StatementAssembler).pushAll chunks).1.finish.2.1

theorem unitsIn_eq (chunks : List Text) :
    unitsIn chunks = unitsOf chunks.flatten := by
  have whole := StatementAssembler.finish_withMore_flatten {} chunks
  exact (congrArg (fun result => result.2.1) whole).symm

/-- Pushes compose in every state, and the units of a stream join to it. -/
theorem pushes_compose :
    (∀ (assembler : StatementAssembler) (first second : Text),
      assembler.push (first ++ second) =
        (((assembler.push first).1.push second).1,
          (assembler.push first).2 ++
          ((assembler.push first).1.push second).2)) ∧
    ∀ chunks : List Text,
      (unitsIn chunks).flatMap StatementUnit.text = chunks.flatten ∧
      ∀ earlier unit later, unitsIn chunks = earlier ++ unit :: later →
        (unit.atLineStart = true ↔
          earlier.flatMap StatementUnit.text = [] ∨
            ∃ front, earlier.flatMap StatementUnit.text = front ++ ['\n']) := by
  refine ⟨StatementAssembler.push_append, ?_⟩
  intro chunks
  obtain ⟨joined, begins⟩ := unitsOf_spec chunks.flatten
  rw [unitsIn_eq]
  refine ⟨joined, ?_⟩
  intro earlier unit later split
  rw [split] at begins
  have start :
      unit.atLineStart = endsLine (earlier.flatMap StatementUnit.text) :=
    begins.atLineStart
  rw [start]
  exact endsLine_iff

end SqlDump
