import SqlDump.Proofs.Pipeline.Edits

/-!
# Where sanitizing edits

Counters that are reset stand in the code of a `CREATE TABLE` statement.  The
times that are removed belong to line comments, unless a line of the lead that
begins like the comment is itself part of a comment, a guard or a literal: the
search for such lines does not lex the lead.
-/

namespace SqlDump

namespace Volatile

variable {text front behind original result lead body : Text}

/-- The places of a piece in a text that is lexed from its start. -/
def placesOf (text front piece : Text) : List Lexer.Place :=
  ((({} : Lexer).places text).drop front.length).take piece.length

/-- Every character that is replaced belongs to a line comment, or to the code
of a `CREATE TABLE` statement. -/
def SparesData (text : Text) : Prop :=
  ∀ pieces original result later, edits text = pieces ++ .replaced original
    result :: later →
    (∀ place ∈ placesOf text (originals pieces) original,
      place.lexicalClass = .lineComment) ∨
      Ddl.isCreateTable (splitStatement text).2 = true ∧
        ∀ place ∈ placesOf text (originals pieces) original, place = .code

theorem mem_placesOf_append {place : Lexer.Place}
    (member : place ∈ placesOf text (front ++ original) behind) :
    place ∈ placesOf text front (original ++ behind) := by
  rw [placesOf, List.length_append, ← List.drop_drop, List.take_drop] at member
  rw [placesOf, List.length_append]
  exact List.mem_of_mem_drop member

private theorem exists_mem_placesOf {head : Char} {tail : Text}
    (split : text = front ++ (head :: tail ++ behind)) :
    ∃ place, place ∈ placesOf text front [head] ∧
      place ∈ placesOf text front (head :: tail) := by
  have within : front.length < (({} : Lexer).places text).length := by
    rw [Lexer.length_places, split]
    simp
  refine ⟨(({} : Lexer).places text)[front.length], ?_, ?_⟩ <;>
  · rw [placesOf, List.drop_eq_getElem_cons within, List.length_cons,
      List.take_succ_cons]
    exact List.mem_cons_self

private theorem placesOf_plains
    (inCode : ({} : Lexer).inCodeAt text front.length = true)
    (split : text = front ++ (original ++ behind))
    (plain : ∀ character ∈ original, character ∉ Lexer.openers) :
    ∀ place ∈ placesOf text front original, place = .code := by
  intro place member
  have dropEq : text.drop front.length = original ++ behind := by
    rw [split, List.drop_left]
  rw [placesOf, Lexer.places_drop Lexer.proper_start inCode, dropEq,
    Lexer.places_plains behind rfl plain,
    List.take_left' List.length_replicate] at member
  exact (List.mem_replicate.mp member).2

theorem inCodeAt_statement
    (creates : Ddl.isCreateTable (splitStatement text).2 = true) (count : Nat) :
    ({} : Lexer).inCodeAt text ((splitStatement text).1.length + count) =
      ({} : Lexer).inCodeAt (splitStatement text).2 count := by
  obtain ⟨parts, -, read⟩ := splitStatement_spec text
  have nonempty : (splitStatement text).2 ≠ [] := by
    intro empty
    rw [empty] at creates
    exact absurd creates (by decide)
  obtain ⟨steps, reads⟩ := read nonempty
  have shifted := inCodeAt_behind reads count
  rwa [← parts] at shifted

private theorem placesOf_counter
    (creates : Ddl.isCreateTable (splitStatement text).2 = true)
    (split : (splitStatement text).2 = front ++ (original ++ behind))
    (counter : CounterAt {} none front original behind) :
    ∀ place ∈ placesOf text ((splitStatement text).1 ++ front) original,
      place = .code := by
  have parts := (splitStatement_spec text).1
  obtain ⟨⟨label, value, rfl, counts⟩, -, inCode⟩ := counter
  rw [← split] at inCode
  have atCounter : ({} : Lexer).inCodeAt text
      ((splitStatement text).1 ++ front).length = true := by
    rw [List.length_append, inCodeAt_statement creates, inCode]
  apply placesOf_plains atCounter _ counts.plain
  · exact behind
  · rw [List.append_assoc, ← split]
    exact parts

/-- The comment behind its mark. -/
def completedWords : Text := "Dump completed".toList

theorem completedComment_eq : completedComment = '-' :: '-' :: ' ' ::
    completedWords := by
  decide

theorem not_mem_of_staysOnLine {time : Text}
    (onLine : ∀ character ∈ time, staysOnLine character = true) :
    '\n' ∉ completedWords ++ (timeStart ++ time) := by
  rw [← List.append_assoc]
  intro inside
  rcases List.mem_append.mp inside with words | inTime
  · exact absurd words (by decide)
  · exact absurd (onLine _ inTime) (by decide)

/-- A comment that begins in code holds the time behind it. -/
theorem placesOf_time {start time rest : Text}
    (inCode : ({} : Lexer).inCodeAt text start.length = true)
    (split : text = start ++ completedComment ++ (timeStart ++ time ++ rest))
    (onLine : ∀ character ∈ time, staysOnLine character = true) :
    ∀ place ∈ placesOf text (start ++ completedComment) (timeStart ++ time),
      place.lexicalClass = .lineComment := by
  intro place member
  have dropEq : text.drop start.length =
      '-' :: '-' :: ' ' :: (completedWords ++ (timeStart ++ time)) ++ rest := by
    rw [split, List.append_assoc, List.drop_left, completedComment_eq]
    simp
  have placesEq := Lexer.places_drop Lexer.proper_start inCode
  rw [dropEq] at placesEq
  have lengthEq : (completedComment ++ (timeStart ++ time)).length =
      (completedWords ++ (timeStart ++ time)).length + 3 := by
    rw [completedComment_eq]
    rfl
  have inLine := mem_placesOf_append member
  rw [placesOf, placesEq, lengthEq] at inLine
  exact Lexer.lexicalClass_of_dashes (not_mem_of_staysOnLine onLine) rest
    place inLine

/-- A line that begins outside of code has no place in code and none in a line
comment, as far as the comment goes. -/
theorem inCodeAt_of_placesOf {start rest : Text}
    (begins : endsLine start = true)
    (split : text = start ++ (completedComment ++ [' '] ++ rest))
    {place : Lexer.Place}
    (member : place ∈ placesOf text start (completedComment ++ [' ']))
    (edited : place.lexicalClass = .lineComment ∨ place.lexicalClass = .code) :
    ({} : Lexer).inCodeAt text start.length = true := by
  rcases List.eq_nil_or_concat start with rfl | ⟨line, last, rfl⟩
  · rw [List.length_nil, Lexer.inCodeAt_zero]
    rfl
  · rw [List.concat_eq_append] at *
    obtain rfl : last = '\n' := by simpa [endsLine] using begins
    obtain ⟨steps, after, notComment, reads⟩ := Lexer.reads_break {} line
    have whole := reads (completedComment ++ [' '] ++ rest)
    rw [← List.singleton_append, ← List.append_assoc, ← split] at whole
    rw [split] at whole ⊢
    rw [whole.inCodeAt_append]
    by_contra outside
    have foreign : after.Foreign :=
      ⟨fun code => outside (Lexer.lexicalClass_eq_code_iff.mp code), notComment,
        whole.quoting Lexer.quoting_start⟩
    rw [split, placesOf, whole.places_drop] at member
    have plain := Lexer.forall_not_mem_of_all (by decide :
      (completedComment ++ [' ']).all (· ∉ Lexer.marksAndQuotes) = true)
    obtain ⟨notCode, notLine⟩ := foreign.places plain rest place member
    exact edited.elim notLine notCode

/-- A comment that begins a line of the lead is edited, so it must begin in code
if only line comments and code may change. -/
theorem SparesData.inCodeAt (spares : SparesData text) {start : Text}
    (leadEq : (splitStatement text).1 =
        start ++ (completedComment ++ (timeStart ++ behind)))
    (begins : endsLine start = true) :
    ({} : Lexer).inCodeAt text start.length = true := by
  have parts := (splitStatement_spec text).1
  have line : beginsLineBehind true start = true := endsLine_eq start ▸ begins
  have editsEq :
      edits text = (timeEdits true start ++ [.copied completedComment]) ++
      .replaced (timeStart ++ behind.takeWhile staysOnLine) [] ::
        (timeEdits false (behind.dropWhile staysOnLine) ++
          if Ddl.isCreateTable (splitStatement text).2 then
            counterEdits {} none (splitStatement text).2
          else [.copied (splitStatement text).2]) := by
    unfold edits
    rw [leadEq, timeEdits_at line]
    simp
  have edited := spares _ _ _ _ editsEq
  have joins : originals (timeEdits true start ++ [.copied completedComment]) =
      start ++ completedComment := by
    rw [originals_append, originals_timeEdits]
    simp [originals, Piece.original]
  have timeEq : timeStart = [' '] ++ "on ".toList := by decide
  rw [joins, timeEq] at edited
  have cut (rest : Text) : behind.takeWhile staysOnLine ++
      (behind.dropWhile staysOnLine ++ rest) = behind ++ rest := by
    rw [← List.append_assoc, List.takeWhile_append_dropWhile]
  have whole : text = (start ++ completedComment) ++
      (' ' :: ("on ".toList ++ behind.takeWhile staysOnLine) ++
        (behind.dropWhile staysOnLine ++ (splitStatement text).2)) := by
    conv => lhs; rw [parts, leadEq, timeEq]
    simp [cut]
  obtain ⟨place, first, inTime⟩ := exists_mem_placesOf whole
  apply inCodeAt_of_placesOf begins _ (mem_placesOf_append first)
  · rcases edited with comment | ⟨-, code⟩
    · exact .inl (comment place inTime)
    · rw [code place inTime]
      exact .inr rfl
  · exact "on ".toList ++ (behind ++ (splitStatement text).2)
  · conv => lhs; rw [parts, leadEq, timeEq]
    simp

private theorem sparesData_of_inCodeAt
    (inCode : ∀ start behind,
      (splitStatement text).1 =
        start ++ (completedComment ++ (timeStart ++ behind)) →
      endsLine start = true → ({} : Lexer).inCodeAt text start.length = true) :
    SparesData text := by
  intro pieces original result later split
  have parts := (splitStatement_spec text).1
  have edit := edit_of_replaced split
  generalize originals pieces = front at edit ⊢
  cases edit with
  | @time front original behind leadEq time =>
      obtain ⟨⟨start, rfl, begins⟩, ⟨time, rfl, onLine⟩, -⟩ := time
      have atComment : ({} : Lexer).inCodeAt text start.length = true := by
        apply inCode start (time ++ behind)
        · rw [leadEq]
          simp
        · rw [endsLine_eq, begins]
      left
      apply placesOf_time atComment _ onLine
      · exact behind ++ (splitStatement text).2
      · conv => lhs; rw [parts, leadEq]
        simp
  | counter creates bodyEq counter =>
      exact .inr ⟨creates, placesOf_counter creates bodyEq counter⟩

/-- What is edited in a unit are the times of completed dumps and the counters
of a `CREATE TABLE` statement.  All of them belong to line comments or to code
exactly if no line of the lead that tells such a time begins in a literal, a
comment or a guard. -/
theorem apply_edits_volatile (state : PipelineState) (text : Text) :
    originals (edits text) = text ∧
      results (edits text) = (apply state text).2 ∧
      (∀ pieces original result later,
        edits text = pieces ++ .replaced original result :: later →
          Edit (splitStatement text).1 (splitStatement text).2
            (originals pieces) original result) ∧
      (SparesData text ↔
        ∀ start behind,
          (splitStatement text).1 =
            start ++ (completedComment ++ (timeStart ++ behind)) →
            endsLine start = true →
              ({} : Lexer).inCodeAt text start.length = true) :=
  ⟨originals_edits text, results_edits state text,
    fun _ _ _ _ split => edit_of_replaced split,
    fun spares _ _ leadEq begins => spares.inCodeAt leadEq begins,
      sparesData_of_inCodeAt⟩

/-- A comment whose second line reads like the end of a dump. -/
def commentDump : Text :=
  "/* a\n-- Dump completed on b */\nSET a=1;\n".toList

/-- The comment loses its end, and the statement behind it becomes part of
it. -/
theorem edits_end_of_comment :
    unitsOf commentDump = [⟨.statement, true, commentDump⟩] ∧
      (apply {} commentDump).2 = "/* a\n-- Dump completed\nSET a=1;\n".toList ∧
      ¬SparesData commentDump := by
  refine ⟨by decide +kernel, by decide +kernel, fun spares => ?_⟩
  have split : edits commentDump = (edits commentDump).take 6 ++
      .replaced " on b */".toList [] :: (edits commentDump).drop 7 := by
    decide +kernel
  have placesEq : placesOf commentDump (originals ((edits commentDump).take 6))
      " on b */".toList =
        List.replicate 6 ⟨.blockComment, .blockComment⟩ ++
          List.replicate 2 ⟨.blockComment, .code⟩ := by
    decide +kernel
  have edited := spares _ _ _ _ split
  rw [placesEq] at edited
  rcases edited with comment | ⟨-, code⟩
  · exact absurd (comment _ List.mem_cons_self) (by decide)
  · exact absurd (code _ List.mem_cons_self) (by decide)

end Volatile

end SqlDump
