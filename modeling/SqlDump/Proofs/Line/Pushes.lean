import SqlDump.Proofs.Line.Decoding

/-!
# Lines of a stream

However the bytes of a stream are cut into chunks, the texts that leave a line
assembler join to the reading of all bytes.  Every text that a push completes
ends a line, and the bytes that have not left are those behind the last line
feed.
-/

namespace SqlDump

namespace Utf8

def Reading.Begun (reading : Reading) : Prop :=
  reading.read ≠ [] ∨ reading.begun ≠ none

theorem Reading.begun_start (read : Text) (byte : Nat) :
    (Reading.start read byte).Begun := by
  unfold Reading.start Reading.Begun
  grind

theorem Reading.begun_take (reading : Reading) (byte : UInt8) :
    (reading.take byte).Begun := by
  unfold Reading.take
  split
  · exact Reading.begun_start _ _
  · split
    · dsimp only
      split
      · exact .inl (List.cons_ne_nil _ _)
      · exact .inr (Option.some_ne_none _)
    · exact Reading.begun_start _ _

theorem Reading.Begun.finish_ne_nil {reading : Reading}
    (begun : reading.Begun) :
    reading.finish ≠ [] := by
  unfold Reading.finish
  split
  · next settled =>
      have read : reading.read ≠ [] :=
        begun.resolve_right (not_not_intro settled)
      exact fun empty => read (List.reverse_eq_nil_iff.mp empty)
  · simp

/-- No byte goes without a trace. -/
theorem decodeLossy_ne_nil {bytes : Bytes} (nonempty : bytes ≠ []) :
    decodeLossy bytes ≠ [] := by
  obtain ⟨front, last, rfl⟩ :=
    (List.eq_nil_or_concat bytes).resolve_left nonempty
  rw [decodeLossy, List.concat_eq_append, List.foldl_append]
  exact (Reading.begun_take _ last).finish_ne_nil

end Utf8

namespace LineAssembler

/-- Push the chunks one after the other; the texts are those that leave on the
way. -/
def pushAll (assembler : LineAssembler) : List Bytes → LineAssembler × List Text
  | [] => (assembler, [])
  | chunk :: chunks =>
      let (pushed, completed) := assembler.push chunk
      let (last, texts) := pushed.pushAll chunks
      (last, completed.toList ++ texts)

/-- Of the bytes the complete lines have left as the texts, and the others
wait. -/
structure Delivered (assembler : LineAssembler) (bytes complete : Bytes)
    (texts : List Text) : Prop where
  split : bytes = complete ++ assembler.pending
  ended : complete = [] ∨ complete.getLast? = some lineFeed
  unfinished : lineFeed ∉ assembler.pending
  read : texts.flatten = Utf8.decodeLossy complete
  lines : assembler.lines = complete.count lineFeed

variable {assembler : LineAssembler} {bytes complete : Bytes}
  {texts : List Text}

theorem Delivered.settled
    (delivered : assembler.Delivered bytes complete texts) :
    assembler.Settled :=
  List.count_eq_zero.mpr delivered.unfinished

theorem Delivered.push (delivered : assembler.Delivered bytes complete texts)
    (chunk : Bytes) :
    ∃ complete, (assembler.push chunk).1.Delivered (bytes ++ chunk) complete
      (texts ++ (assembler.push chunk).2.toList) := by
  have parts := completePart_append_unfinishedPart chunk
  have behind := List.count_eq_zero.mp (count_unfinishedPart chunk)
  by_cases unfinished : completePart chunk = []
  · rw [unfinished, List.nil_append] at parts
    rw [parts] at behind
    rw [push_of_unfinished unfinished]
    exact ⟨complete, {
      split := by rw [delivered.split, List.append_assoc]
      ended := delivered.ended
      unfinished := by
        rw [List.mem_append, not_or]
        exact ⟨delivered.unfinished, behind⟩
      read := by rw [Option.toList_none, List.append_nil, delivered.read]
      lines := delivered.lines }⟩
  · have chunkEnded := (completePart_ended chunk).resolve_left unfinished
    rw [push_of_complete unfinished]
    exact ⟨complete ++ (assembler.pending ++ completePart chunk), {
      split := by
        rw [delivered.split, List.append_assoc, List.append_assoc,
          List.append_assoc, parts]
      ended := by
        rw [List.getLast?_append, List.getLast?_append, chunkEnded]
        exact .inr rfl
      unfinished := behind
      read := by
        rw [Utf8.decodeLossy_append _ _ delivered.ended, List.flatten_append,
          delivered.read]
        simp
      lines := by
        rw [List.count_append, List.count_append,
          List.count_eq_zero.mpr delivered.unfinished,
          Nat.zero_add, delivered.lines] }⟩

theorem Delivered.pushAll (delivered : assembler.Delivered bytes complete texts)
    (chunks : List Bytes) :
    ∃ complete, (assembler.pushAll chunks).1.Delivered (bytes ++ chunks.flatten)
      complete
      (texts ++ (assembler.pushAll chunks).2) := by
  induction chunks generalizing assembler bytes complete texts with
  | nil =>
      rw [List.flatten_nil, List.append_nil]
      exact ⟨complete, by rwa [LineAssembler.pushAll, List.append_nil]⟩
  | cons chunk chunks ih =>
      obtain ⟨_, pushed⟩ := delivered.push chunk
      obtain ⟨complete, later⟩ := ih pushed
      rw [List.append_assoc, List.append_assoc] at later
      exact ⟨complete, later⟩

private theorem delivered_start : ({} : LineAssembler).Delivered [] [] [] where
  split := rfl
  ended := .inl rfl
  unfinished := List.not_mem_nil
  read := rfl
  lines := rfl

theorem delivered_pushAll (chunks : List Bytes) :
    ∃ complete, (({} : LineAssembler).pushAll chunks).1.Delivered chunks.flatten
      complete
      (({} : LineAssembler).pushAll chunks).2 :=
  delivered_start.pushAll chunks

/-- What a push completes ends a line. -/
theorem getLast?_of_mem_push {chunk : Bytes} {text : Text}
    (completed : text ∈ (assembler.push chunk).2.toList) :
    text.getLast? = some '\n' := by
  by_cases unfinished : completePart chunk = []
  · rw [push_of_unfinished unfinished] at completed
    exact absurd completed List.not_mem_nil
  · obtain ⟨line, lineEq⟩ := List.getLast?_eq_some_iff.mp
      ((completePart_ended chunk).resolve_left unfinished)
    rw [push_of_complete unfinished, Option.toList_some, List.mem_singleton,
      lineEq, ← List.append_assoc, Utf8.decodeLossy_line] at completed
    rw [completed]
    exact List.getLast?_concat

theorem getLast?_of_mem_pushAll {chunks : List Bytes} {text : Text}
    (completed : text ∈ (assembler.pushAll chunks).2) :
    text.getLast? = some '\n' := by
  induction chunks generalizing assembler with
  | nil => exact absurd completed List.not_mem_nil
  | cons chunk chunks ih =>
      rw [LineAssembler.pushAll] at completed
      rcases List.mem_append.mp completed with first | later
      · exact getLast?_of_mem_push first
      · exact ih later

private theorem ne_nil_of_mem_finish {text : Text}
    (last : text ∈ assembler.finish.2.toList) :
    text ≠ [] := by
  unfold finish at last
  split at last
  · exact absurd last List.not_mem_nil
  · next first others pending =>
      rw [Option.toList_some, List.mem_singleton] at last
      rw [last, pending]
      exact Utf8.decodeLossy_ne_nil (List.cons_ne_nil first others)

private theorem flatten_toList (completed : Option Text) :
    completed.toList.flatten = textOf completed := by
  cases completed with
  | none => rfl
  | some text => exact List.append_nil text

/-- The texts that leave a new assembler join to the reading of all bytes, none
of them is empty, and those that a push completes end with a line feed.  The
lines are counted, and at any time the bytes behind the last line feed are those
that have not left. -/
theorem pushes_decode_whole (chunks : List Bytes) :
    let input := chunks.flatten
    let pushed := ({} : LineAssembler).pushAll chunks
    let ended := pushed.1.finish
    (pushed.2 ++ ended.2.toList).flatten = Utf8.decodeLossy input ∧
      (∀ text ∈ pushed.2, text.getLast? = some '\n') ∧
      (∀ text ∈ pushed.2 ++ ended.2.toList, text ≠ []) ∧
      ended.1.lines = input.count lineFeed +
        (if input = [] ∨ input.getLast? = some lineFeed then 0 else 1) ∧
      ∀ earlier, earlier <+: chunks →
        let sofar := ({} : LineAssembler).pushAll earlier
        ∃ complete, earlier.flatten = complete ++ sofar.1.pending ∧
          (complete = [] ∨ complete.getLast? = some lineFeed) ∧
          lineFeed ∉ sofar.1.pending ∧
            sofar.2.flatten = Utf8.decodeLossy complete := by
  intro input pushed ended
  obtain ⟨complete, delivered⟩ :
      ∃ complete, pushed.1.Delivered input complete pushed.2 :=
        delivered_pushAll chunks
  obtain ⟨decoded, counted⟩ := pushed.1.finish_spec delivered.settled
  refine ⟨?_, ?_, ?_, ?_, ?_⟩
  · rw [List.flatten_append, flatten_toList, delivered.read, decoded,
      ← Utf8.decodeLossy_append _ _ delivered.ended, ← delivered.split]
  · intro text completed
    exact getLast?_of_mem_pushAll completed
  · intro text left
    rcases List.mem_append.mp left with completed | last
    · intro empty
      have ends := getLast?_of_mem_pushAll completed
      simp [empty] at ends
    · exact ne_nil_of_mem_finish last
  · have whole := lineCount_append _ pushed.1.pending delivered.ended
    rw [← delivered.split] at whole
    change pushed.1.finish.1.lines = _
    rw [counted, delivered.lines, ← whole]
    simp only [lineCount, unfinishedPart_eq_nil_iff]
  · intro earlier _ sofar
    obtain ⟨complete, delivered⟩ :
        ∃ complete, sofar.1.Delivered earlier.flatten complete sofar.2 :=
          delivered_pushAll earlier
    exact ⟨complete, delivered.split, delivered.ended, delivered.unfinished,
      delivered.read⟩

end LineAssembler

end SqlDump
