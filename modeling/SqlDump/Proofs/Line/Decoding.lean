import SqlDump.Line

/-!
# Lines decode by themselves

No character has a line feed among its later bytes, so the lenient reading of a
stream is the reading of its lines one after another.  The texts that leave a
line assembler therefore join to the reading of all bytes, and its count of
lines is that of the whole stream.
-/

namespace SqlDump

namespace Utf8

/-- The next byte of a begun character lies above ASCII. -/
def Reading.Valid (reading : Reading) : Prop :=
  ∀ begun, reading.begun = some begun → 0x80 ≤ begun.low

theorem Reading.valid_start (read : Text) (byte : Nat) :
    (Reading.start read byte).Valid := by
  unfold Reading.start Reading.Valid
  grind

theorem Reading.valid_take (reading : Reading) (byte : UInt8) :
    (reading.take byte).Valid := by
  unfold Reading.take
  split
  · exact Reading.valid_start _ _
  · next begun inside =>
      split
      · dsimp only
        split
        · simp [Reading.Valid]
        · simp [Reading.Valid]
      · exact Reading.valid_start _ _

theorem Reading.valid_foldl {reading : Reading} (bytes : Bytes)
    (valid : reading.Valid) :
    (bytes.foldl Reading.take reading).Valid := by
  induction bytes generalizing reading with
  | nil => exact valid
  | cons byte bytes ih => exact ih (reading.valid_take byte)

def Reading.withEarlier (reading : Reading) (earlier : Text) : Reading :=
  { reading with read := reading.read ++ earlier.reverse }

theorem Reading.start_withEarlier (read earlier : Text) (byte : Nat) :
    Reading.start (read ++ earlier.reverse) byte =
      (Reading.start read byte).withEarlier earlier := by
  unfold Reading.start Reading.withEarlier
  grind

theorem Reading.take_withEarlier (reading : Reading) (earlier : Text)
    (byte : UInt8) :
    (reading.withEarlier earlier).take byte = (reading.take byte).withEarlier
      earlier := by
  unfold Reading.take
  cases reading with
  | mk read begun =>
      cases begun with
      | none => exact Reading.start_withEarlier read earlier _
      | some begun =>
          dsimp only [Reading.withEarlier]
          split
          · split <;> rfl
          · exact Reading.start_withEarlier (replacement :: read) earlier _

theorem Reading.foldl_withEarlier (reading : Reading) (earlier : Text)
    (bytes : Bytes) :
    bytes.foldl Reading.take (reading.withEarlier earlier) =
      (bytes.foldl Reading.take reading).withEarlier earlier := by
  induction bytes generalizing reading with
  | nil => rfl
  | cons byte bytes ih =>
      rw [List.foldl_cons, List.foldl_cons, Reading.take_withEarlier, ih]

theorem Reading.finish_withEarlier (reading : Reading) (earlier : Text) :
    (reading.withEarlier earlier).finish = earlier ++ reading.finish := by
  cases reading with
  | mk read begun => cases begun <;> simp [Reading.finish, Reading.withEarlier]

/-- A line feed ends the character before it and is read as itself. -/
theorem Reading.take_lineFeed {reading : Reading} (valid : reading.Valid) :
    reading.take LineAssembler.lineFeed =
      ({} : Reading).withEarlier (reading.finish ++ ['\n']) := by
  cases reading with
  | mk read begun =>
      cases begun with
      | none =>
          simp [Reading.take, Reading.start, Reading.withEarlier,
            Reading.finish,
          LineAssembler.lineFeed]
      | some begun =>
          have above : 0x80 ≤ begun.low := valid begun rfl
          have outside : ¬(begun.low ≤ LineAssembler.lineFeed.toNat ∧
              LineAssembler.lineFeed.toNat ≤ begun.high) := by
            simp only [LineAssembler.lineFeed, UInt8.reduceToNat]
            omega
          have broken :
              (⟨read, some begun⟩ : Reading).take LineAssembler.lineFeed =
                ⟨'\n' :: replacement :: read, none⟩ := by
            simp only [Reading.take, if_neg outside]
            rfl
          simp [broken, Reading.withEarlier, Reading.finish]

/-- Behind a line feed the reading begins anew. -/
theorem decodeLossy_line (line rest : Bytes) :
    decodeLossy (line ++ LineAssembler.lineFeed :: rest) =
      decodeLossy line ++ '\n' :: decodeLossy rest := by
  have valid : (line.foldl Reading.take {}).Valid :=
    Reading.valid_foldl line (by simp [Reading.Valid])
  unfold decodeLossy
  rw [List.foldl_append, List.foldl_cons, Reading.take_lineFeed valid,
    Reading.foldl_withEarlier, Reading.finish_withEarlier, List.append_assoc,
    List.singleton_append]

theorem decodeLossy_append (complete rest : Bytes)
    (ended : complete = [] ∨ complete.getLast? = some LineAssembler.lineFeed) :
    decodeLossy (complete ++ rest) = decodeLossy complete ++
      decodeLossy rest := by
  rcases ended with rfl | ended
  · rfl
  · obtain ⟨line, rfl⟩ := List.getLast?_eq_some_iff.mp ended
    rw [List.append_assoc, List.singleton_append, decodeLossy_line,
      decodeLossy_line, List.append_assoc]
    rfl

end Utf8

namespace LineAssembler

theorem completePart_append_unfinishedPart (chunk : Bytes) :
    completePart chunk ++ unfinishedPart chunk = chunk := by
  unfold completePart unfinishedPart
  rw [← List.reverse_append, List.takeWhile_append_dropWhile,
    List.reverse_reverse]

theorem count_unfinishedPart (chunk : Bytes) :
    (unfinishedPart chunk).count lineFeed = 0 := by
  rw [List.count_eq_zero, unfinishedPart, List.mem_reverse]
  intro found
  have kept := List.all_eq_true.mp List.all_takeWhile lineFeed found
  simp at kept

theorem completePart_ended (chunk : Bytes) :
    completePart chunk = [] ∨
      (completePart chunk).getLast? = some lineFeed := by
  unfold completePart
  rw [List.getLast?_reverse]
  cases ended : chunk.reverse.dropWhile (· != lineFeed) with
  | nil => exact .inl rfl
  | cons byte bytes =>
      have stops := List.head?_dropWhile_not (· != lineFeed) chunk.reverse
      rw [ended] at stops
      right
      simpa using stops

/-- Number of lines; the last one need not be ended. -/
def lineCount (bytes : Bytes) : Nat :=
  bytes.count lineFeed + if unfinishedPart bytes = [] then 0 else 1

private theorem unfinishedPart_append (complete rest : Bytes)
    (ended : complete = [] ∨ complete.getLast? = some lineFeed) :
    unfinishedPart (complete ++ rest) = unfinishedPart rest := by
  rcases ended with rfl | ended
  · rfl
  · obtain ⟨line, rfl⟩ := List.getLast?_eq_some_iff.mp ended
    simp only [unfinishedPart, List.reverse_append, List.reverse_cons,
      List.reverse_nil, List.nil_append, List.singleton_append,
      List.takeWhile_append]
    split
    · next noBreak =>
        have same :=
          (List.takeWhile_sublist (· != lineFeed)).eq_of_length noBreak
        simp [same]
    · rfl

theorem lineCount_append (complete rest : Bytes)
    (ended : complete = [] ∨ complete.getLast? = some lineFeed) :
    lineCount (complete ++ rest) = complete.count lineFeed +
      lineCount rest := by
  unfold lineCount
  rw [unfinishedPart_append complete rest ended, List.count_append,
    Nat.add_assoc]

theorem unfinishedPart_eq_nil_iff (bytes : Bytes) :
    unfinishedPart bytes = [] ↔
      bytes = [] ∨ bytes.getLast? = some lineFeed := by
  rw [unfinishedPart, List.reverse_eq_nil_iff, ← List.head?_reverse]
  cases reversed : bytes.reverse with
  | nil => simp [List.reverse_eq_nil_iff.mp reversed]
  | cons last others =>
      have nonempty : bytes ≠ [] := by
        intro empty
        simp [empty] at reversed
      by_cases ended : last = lineFeed <;> simp [ended, nonempty]

/-- The bytes behind the last line break hold none. -/
def Settled (assembler : LineAssembler) : Prop :=
  assembler.pending.count lineFeed = 0

def textOf (completed : Option Text) : Text :=
  completed.getD []

theorem push_of_unfinished {assembler : LineAssembler} {chunk : Bytes}
    (unfinished : completePart chunk = []) :
    assembler.push chunk =
      ({ assembler with pending := assembler.pending ++ chunk }, none) := by
  rw [push, unfinished]

theorem push_of_complete {assembler : LineAssembler} {chunk : Bytes}
    (complete : completePart chunk ≠ []) :
    assembler.push chunk =
      ({ pending := unfinishedPart chunk
         lines := assembler.lines + (completePart chunk).count lineFeed },
        some (Utf8.decodeLossy (assembler.pending ++ completePart chunk))) := by
  unfold push
  split
  · next empty => exact absurd empty complete
  · rfl

/-- A push moves complete lines from the bytes to the text. -/
theorem push_spec (assembler : LineAssembler) (chunk rest : Bytes)
    (settled : assembler.Settled) :
    (assembler.push chunk).1.Settled ∧
      Utf8.decodeLossy (assembler.pending ++ (chunk ++ rest)) =
        textOf (assembler.push chunk).2 ++
          Utf8.decodeLossy ((assembler.push chunk).1.pending ++ rest) ∧
      assembler.lines + lineCount (assembler.pending ++ (chunk ++ rest)) =
        (assembler.push chunk).1.lines +
          lineCount ((assembler.push chunk).1.pending ++ rest) := by
  have parts := completePart_append_unfinishedPart chunk
  have behind := count_unfinishedPart chunk
  by_cases unfinished : completePart chunk = []
  · rw [unfinished, List.nil_append] at parts
    rw [parts] at behind
    rw [push_of_unfinished unfinished]
    refine ⟨?_, ?_, ?_⟩
    · show (assembler.pending ++ chunk).count lineFeed = 0
      rw [List.count_append, settled, behind]
    · simp [textOf]
    · simp
  · have moved : assembler.pending ++ (chunk ++ rest) =
        (assembler.pending ++ completePart chunk) ++
        (unfinishedPart chunk ++ rest) := by
      rw [List.append_assoc, ← List.append_assoc (completePart chunk), parts]
    have ended : assembler.pending ++ completePart chunk = [] ∨
        (assembler.pending ++ completePart chunk).getLast? = some lineFeed := by
      right
      rw [List.getLast?_append,
        (completePart_ended chunk).resolve_left unfinished]
      rfl
    rw [push_of_complete unfinished]
    refine ⟨behind, ?_, ?_⟩
    · rw [moved, Utf8.decodeLossy_append _ _ ended]
      rfl
    · rw [moved, lineCount_append _ _ ended, List.count_append, settled,
        Nat.zero_add, Nat.add_assoc]

theorem finish_spec (assembler : LineAssembler) (settled : assembler.Settled) :
    textOf assembler.finish.2 = Utf8.decodeLossy assembler.pending ∧
      assembler.finish.1 =
        { lines := assembler.lines + lineCount assembler.pending } := by
  unfold finish
  cases pending : assembler.pending with
  | nil =>
      cases assembler
      subst pending
      simp [textOf, Utf8.decodeLossy, Utf8.Reading.finish, lineCount,
        unfinishedPart]
  | cons first others =>
      rw [Settled, pending] at settled
      have unbroken : unfinishedPart (first :: others) ≠ [] := by
        intro empty
        have parts := completePart_append_unfinishedPart (first :: others)
        have ended := completePart_ended (first :: others)
        rw [empty, List.append_nil] at parts
        rw [parts] at ended
        rcases ended with none | ended
        · simp at none
        · have found := List.mem_of_getLast? ended
          exact List.count_eq_zero.mp settled found
      simp [textOf, lineCount, unbroken, settled]

end LineAssembler

end SqlDump
