import SqlDump.Proofs.Ddl.Reading
import SqlDump.Proofs.Guard.CodeText
import SqlDump.Proofs.Guard.Lines
import SqlDump.Proofs.Pipeline.Removal
import SqlDump.Proofs.Statement.Directive
import SqlDump.Proofs.Text.Word
import SqlDump.Session

/-!
# A line that drops something

A statement that drops something goes with the delimiter behind it.  In a guard
it goes with the semicolons that begin the delimiter only, so the first dollar
sign of the delimiter stays, and what follows it.
-/

namespace SqlDump

section

variable {head : Char} {tail text : Text}

/-- The first letters of the statements that a stage other than the one for
drops changes. -/
def handledLetters : List Char := ['c', 's', 'u']

theorem TableOptions.text_apply_of_other (state : PipelineState)
    (body : (splitStatement text).2 = head :: tail)
    (other : foldLetter head ∉ handledLetters) :
    (apply state text).2 = text := by
  have noUse : Ddl.useTarget? (head :: tail) = none := by
    have noWord : Ddl.afterWordBlanks? "USE".toList (head :: tail) = none :=
      Ddl.afterWordBlanks?_of_ne fun same => other (by rw [same]; decide)
    rw [Ddl.useTarget?, noWord]
    rfl
  have noTable : Ddl.createTable? (head :: tail) = none := by
    have noWord : Ddl.afterWordBlanks? "CREATE".toList (head :: tail) = none :=
      Ddl.afterWordBlanks?_of_ne fun same => other (by rw [same]; decide)
    rw [Ddl.createTable?, Ddl.afterCreateTable?, noWord]
    rfl
  unfold apply
  dsimp only
  rw [body, noUse, noTable]
  dsimp only
  split <;> rfl

theorem TimeZone.text_apply_of_other (atLineStart : Bool)
    (state : PipelineState) (body : (splitStatement text).2 = head :: tail)
    (other : foldLetter head ∉ handledLetters) :
    (apply atLineStart state text).2 = text := by
  have noZone : normalize? (head :: tail) = none := by
    have noWord : Ddl.afterWordBlanks? "SET".toList (head :: tail) = none :=
      Ddl.afterWordBlanks?_of_ne fun same => other (by rw [same]; decide)
    rw [normalize?, afterAssignment?, noWord]
    rfl
  unfold apply
  dsimp only
  rw [body, noZone]
  dsimp only
  split <;> rfl

theorem Volatile.text_apply_of_other (state : PipelineState)
    (split : splitStatement text = ([], head :: tail))
    (whole : text = head :: tail) (other : foldLetter head ∉ handledLetters) :
    (apply state text).2 = text := by
  have noTable : Ddl.isCreateTable (head :: tail) = false := by
    have noWord : Ddl.afterWordBlanks? "CREATE".toList (head :: tail) = none :=
      Ddl.afterWordBlanks?_of_ne fun same => other (by rw [same]; decide)
    rw [Ddl.isCreateTable, Ddl.afterCreateTable?, noWord]
    rfl
  have noTime : stripTimes true [] = [] := by rw [stripTimes]
  unfold apply
  dsimp only
  rw [split]
  dsimp only
  rw [noTable, noTime, whole]
  rfl

end

theorem Stage.applyAll_cons (atLineStart : Bool) (stage : Stage)
    (stages : List Stage) (state : PipelineState) {text : Text}
    (nonempty : text ≠ []) :
    applyAll atLineStart (stage :: stages) state text =
      applyAll atLineStart stages (stage.apply atLineStart state text).1
        (stage.apply atLineStart state text).2 := by
  cases text with
  | nil => exact absurd rfl nonempty
  | cons head tail => rfl

/-- Where the other stages leave the unit and what the removal leaves of it,
that is the output. -/
theorem CleanOptions.text_applyAll_of_drop {options : CleanOptions}
    (noDrop : options.noDrop = true) (state : PipelineState) {text left : Text}
    (nonempty : text ≠ [])
    (optionsKeep : ∀ state, (TableOptions.apply state text).2 = text)
    (zoneKeeps : ∀ state, (TimeZone.apply true state text).2 = text)
    (removes : ∀ state, (DropStatement.apply true state text).2 = left)
    (timesKeep : ∀ state, left ≠ [] → (Volatile.apply state left).2 = left) :
    (Stage.applyAll true options.stages state text).2 = left := by
  have stages : options.stages = .tableOptions :: .timeZone :: .dropStatement ::
      (if options.sanitize then [.volatile] else []) := by
    simp [CleanOptions.stages, noDrop]
  have optionsText (state : PipelineState) :
      (Stage.apply .tableOptions true state text).2 = text := optionsKeep state
  have zoneText (state : PipelineState) :
      (Stage.apply .timeZone true state text).2 = text := zoneKeeps state
  have dropText (state : PipelineState) :
      (Stage.apply .dropStatement true state text).2 = left := removes state
  rw [stages, Stage.applyAll_cons _ _ _ _ nonempty, optionsText,
    Stage.applyAll_cons _ _ _ _ nonempty, zoneText,
    Stage.applyAll_cons _ _ _ _ nonempty, dropText]
  cases sanitize : options.sanitize with
  | false => rfl
  | true =>
      cases left with
      | nil => rfl
      | cons head tail => exact timesKeep _ (List.cons_ne_nil head tail)

/-- The statement in front of the delimiter. -/
def plainLine (delimiter : Delimiter) (statement : Text) : Text :=
  statement ++ (delimiter.text ++ ['\n'])

def guardOf (digits statement : Text) : Guard :=
  ⟨digits, ' ' :: statement⟩

/-- The guard in front of the delimiter. -/
def guardedLine (delimiter : Delimiter) (digits statement : Text) : Text :=
  (guardOf digits statement).raw ++ (delimiter.text ++ ['\n'])

/-- The delimiter from its first dollar sign on, with the line break behind
it. -/
def fromDollar (delimiter : Delimiter) : Text :=
  if '$' ∈ delimiter.text then delimiter.text.dropWhile (· != '$') ++ ['\n']
  else []

/-- A statement that drops something, made of code without comments, in which
the delimiter does not stand.  A slash at its end would begin a comment with the
closing marker of the guard. -/
structure DropText (delimiter : Delimiter) (statement : Text) : Prop where
  keyword : Text.sameAsciiWord (leadingWord statement) DropStatement.keyword =
    true
  code : CodeText statement
  noSlash : statement.getLast? ≠ some '/'
  undelimited : ∀ place < statement.length,
    ({} : Lexer).inCodeAt (plainLine delimiter statement) place = true →
      ¬delimiter.text <+: (plainLine delimiter statement).drop place

variable {delimiter : Delimiter} {digits statement : Text}
  {options : CleanOptions}

theorem MadeOfMarks.exists_mark (made : MadeOfMarks delimiter) :
    ∃ mark marks, delimiter.text = mark :: marks ∧
    (mark = ';' ∨ mark = '$') := by
  obtain ⟨mark, marks, split⟩ := List.exists_cons_of_ne_nil delimiter.nonempty
  exact ⟨mark, marks, split, made mark (by simp [split])⟩

theorem MadeOfMarks.fromDollar_eq_nil_iff (made : MadeOfMarks delimiter) :
    fromDollar delimiter = [] ↔ ∀ mark ∈ delimiter.text, mark = ';' := by
  rw [fromDollar]
  by_cases dollar : '$' ∈ delimiter.text
  · rw [if_pos dollar]
    refine iff_of_false (by simp) fun semicolons => ?_
    exact absurd (semicolons '$' dollar) (by decide)
  · rw [if_neg dollar]
    refine iff_of_true rfl fun mark member => ?_
    exact (made mark member).resolve_right fun same => dollar (same ▸ member)

/-- What is dropped with a guard are the semicolons in front of the first dollar
sign. -/
theorem MadeOfMarks.dropWhile_line (made : MadeOfMarks delimiter) :
    (fromDollar delimiter = [] ∧
      (delimiter.text ++ ['\n']).dropWhile (· == ';') = ['\n']) ∨
      ∃ marks, fromDollar delimiter = '$' :: marks ∧
        (delimiter.text ++ ['\n']).dropWhile (· == ';') = '$' :: marks := by
  by_cases dollar : '$' ∈ delimiter.text
  · right
    obtain ⟨front, behind, split, noDollar⟩ := List.eq_append_cons_of_mem dollar
    have semicolons : ∀ mark ∈ front, mark = ';' := fun mark member =>
      (made mark (by simp [split, member])).resolve_right fun same =>
        noDollar (same ▸ member)
    refine ⟨behind ++ ['\n'], ?_, ?_⟩
    · rw [fromDollar, if_pos dollar, split,
        List.dropWhile_append_of_pos fun mark member => by
          simp [semicolons mark member]]
      rfl
    · rw [split, List.append_assoc,
        List.dropWhile_append_of_pos fun mark member => by
          simp [semicolons mark member]]
      rfl
  · left
    have nothing : fromDollar delimiter = [] := if_neg dollar
    refine ⟨nothing, ?_⟩
    rw [List.dropWhile_append_of_pos fun mark member => by
      simp [made.fromDollar_eq_nil_iff.mp nothing mark member]]
    rfl

theorem beginsToken_of_mark {mark : Char} (isMark : mark = ';' ∨ mark = '$') :
    BeginsToken mark :=
  ⟨(mark_spec isMark).1, (mark_spec isMark).2.1, (mark_spec isMark).2.2.1⟩

theorem DropText.letters (drops : DropText delimiter statement) :
    ∃ first second more, statement = first :: second :: more ∧
    BeginsToken first ∧
      foldLetter first = 'd' ∧ second.toLower = 'r' := by
  have same := drops.keyword
  simp only [Text.sameAsciiWord, beq_iff_eq] at same
  have begins : leadingWord statement <+: statement := List.takeWhile_prefix _
  generalize leadingWord statement = word at same begins
  obtain ⟨more, rfl⟩ := begins
  rcases word with _ | ⟨first, _ | ⟨second, word⟩⟩
  · simp [DropStatement.keyword] at same
  · simp [DropStatement.keyword] at same
  · simp only [DropStatement.keyword, List.map_cons, List.cons.injEq] at same
    have folded : foldLetter first = 'd' := by
      unfold foldLetter
      split
      · next longS => exact absurd (longS ▸ same.1) (by decide)
      · split
        · next kelvin => exact absurd (kelvin ▸ same.1) (by decide)
        · exact same.1
    have capital : 'D'.isUpper = true := rfl
    have letter : first = 'D' ∨ first = 'd' :=
      eq_or_eq_of_foldLetter_eq capital (by decide) (by decide) folded
    refine ⟨first, second, word ++ more, rfl, beginsToken_of_isAlpha ?_, folded,
      same.2.1.trans (by decide)⟩
    rcases letter with rfl | rfl <;> rfl

private theorem leadingWord_plainLine (made : MadeOfMarks delimiter)
    (statement : Text) :
    leadingWord (plainLine delimiter statement) = leadingWord statement := by
  obtain ⟨mark, marks, split, isMark⟩ := made.exists_mark
  rw [plainLine, split]
  refine (Text.takeWhile_before ?_ statement _).1
  rcases isMark with rfl | rfl <;> rfl

theorem DropText.applyAll_plainLine (drops : DropText delimiter statement)
    (made : MadeOfMarks delimiter) (noDrop : options.noDrop = true)
    (state : PipelineState) :
    (Stage.applyAll true options.stages state
      (plainLine delimiter statement)).2 = [] := by
  obtain ⟨first, second, more, rfl, begins, folded, -⟩ := drops.letters
  have other : foldLetter first ∉ handledLetters := by
    rw [folded]
    decide
  generalize lineEq : plainLine delimiter (first :: second :: more) = line
  obtain ⟨rest, rfl⟩ : ∃ rest, line = first :: rest := ⟨_, lineEq.symm⟩
  have split := splitStatement_of_beginsToken begins rest
  have found :
      DropStatement.find?
        ((first :: rest).drop (statementOffset (first :: rest))) =
      some (first :: rest, false) := by
    have keyword : firstKeyword (first :: rest) =
        (leadingWord (first :: second :: more), false) := by
      rw [firstKeyword, Guard.scan_token begins, ← lineEq,
        leadingWord_plainLine made]
    rw [statementOffset_of_beginsToken begins, List.drop_zero,
      DropStatement.find?, keyword]
    dsimp only
    rw [if_pos drops.keyword]
  refine CleanOptions.text_applyAll_of_drop noDrop state (List.cons_ne_nil _ _)
    (fun state =>
      TableOptions.text_apply_of_other state (congrArg Prod.snd split) other)
    (fun state =>
      TimeZone.text_apply_of_other true state (congrArg Prod.snd split) other)
    (fun state => ?_) (fun state nonempty => absurd rfl nonempty)
  exact DropStatement.apply_of_find?_self true state found

theorem DropText.applyAll_guardedLine (drops : DropText delimiter statement)
    (made : MadeOfMarks delimiter) (noDrop : options.noDrop = true)
    (complete : Guard.scan (guardedLine delimiter digits statement) =
        .complete (guardOf digits statement) (delimiter.text ++ ['\n']))
    (state : PipelineState) :
    (Stage.applyAll true options.stages state
      (guardedLine delimiter digits statement)).2 =
      fromDollar delimiter := by
  obtain ⟨mark, marks, delimiterEq, isMark⟩ := made.exists_mark
  have markOther : foldLetter mark ∉ handledLetters := by
    rcases isMark with rfl | rfl <;> decide
  have offset := Guard.statementOffset_of_scan complete
  have nonempty : guardedLine delimiter digits statement ≠ [] := by
    simp [guardedLine, Guard.raw, guardMarker]
  generalize guardedLine delimiter digits statement = line
    at complete offset nonempty
  have body : (splitStatement line).2 = mark :: (marks ++ ['\n']) := by
    rw [splitStatement_of_scan (by rw [offset, List.drop_zero]; exact complete),
      delimiterEq, List.cons_append,
      splitStatement_of_beginsToken (beginsToken_of_mark isMark)]
  have found : DropStatement.find? (line.drop (statementOffset line)) =
      some (line, true) := by
    obtain ⟨first, second, more, rfl, begins, -, -⟩ := drops.letters
    have blank : Trivia [' '] := trivia_of_blanks (List.all_eq_true.mp rfl)
    have inner :
        statementOffset (guardOf digits (first :: second :: more)).inner =
          1 := by
      have behind := statementOffset_append blank (first :: second :: more)
      rwa [statementOffset_of_beginsToken begins] at behind
    rw [offset, List.drop_zero, DropStatement.find?,
      DropStatement.firstKeyword_of_scan complete, inner]
    dsimp only
    rw [guardOf, List.drop_succ_cons, List.drop_zero, if_pos drops.keyword]
  have remainder : DropStatement.remainder line true true =
      DropStatement.dropLineBreak
        ((delimiter.text ++ ['\n']).dropWhile (· == ';')) := by
    rw [DropStatement.remainder, if_pos rfl, complete]
    rfl
  refine CleanOptions.text_applyAll_of_drop noDrop state nonempty
    (fun state => TableOptions.text_apply_of_other state body markOther)
    (fun state => TimeZone.text_apply_of_other true state body markOther)
    (fun state => ?_) (fun state kept => ?_)
  · refine (DropStatement.apply_of_find?_self true state found).trans ?_
    change DropStatement.suppress [] line true true = _
    unfold DropStatement.suppress
    rw [remainder]
    rcases made.dropWhile_line with ⟨nothing, rest⟩ | ⟨behind, some, rest⟩
    · rw [nothing, rest]
      rfl
    · rw [some, rest]
      rfl
  · rcases made.dropWhile_line with ⟨nothing, -⟩ | ⟨behind, some, -⟩
    · exact absurd nothing kept
    · exact Volatile.text_apply_of_other state
        (some ▸ splitStatement_of_beginsToken (beginsToken_of_mark (.inr rfl))
          behind) some
        (by decide)

end SqlDump
