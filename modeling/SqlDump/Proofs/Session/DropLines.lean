import SqlDump.Proofs.Pipeline.DropLine
import SqlDump.Proofs.Session.Lines

/-!
# Drops on lines of their own

With drops removed, a statement that drops something and its delimiter leave
nothing behind, wherever a line begins.  The same statement in a guard leaves
the delimiter from its first dollar sign on: nothing exactly if the delimiter is
made of semicolons.
-/

namespace SqlDump

variable {options : CleanOptions} {delimiter : Delimiter}
  {digits statement line : Text} {session : Session}

theorem MadeOfMarks.noSlash (made : MadeOfMarks delimiter) :
    '/' ∉ delimiter.text ++ ['\n'] :=
  fun member => made.noOpener '/' member (by decide)

theorem MadeOfMarks.inCodeAt_end (made : MadeOfMarks delimiter) :
    ({} : Lexer).inCodeAt (delimiter.text ++ ['\n'])
      (delimiter.text ++ ['\n']).length = true := by
  have plains := Lexer.inCodeAt_plains [] Lexer.atTopLevel_start made.noOpener 0
  rwa [List.append_nil, Nat.add_zero, Lexer.inCodeAt_zero] at plains

theorem getLast?_append_delimiter (front : Text) (delimiter : Delimiter) :
    (front ++ (delimiter.text ++ ['\n'])).getLast? = some '\n' := by
  rw [← List.append_assoc, List.getLast?_concat]

theorem DropText.inCodeAt_behind (drops : DropText delimiter statement)
    (made : MadeOfMarks delimiter) (later : Nat) :
    ({} : Lexer).inCodeAt (plainLine delimiter statement)
      (statement.length + later) =
      ({} : Lexer).inCodeAt (delimiter.text ++ ['\n']) later := by
  obtain ⟨mark, marks, split, isMark⟩ := made.exists_mark
  rw [plainLine, split]
  exact (drops.code.inCodeAt isMark (marks ++ ['\n'])).2 later

theorem DropText.guardsStay_plainLine (drops : DropText delimiter statement)
    (made : MadeOfMarks delimiter) (threshold : Nat) :
    GuardsStay threshold (plainLine delimiter statement) := by
  refine guardsStay_of_noMarker fun place inCode marker => ?_
  rcases Nat.lt_or_ge place statement.length with within | beyond
  · obtain ⟨mark, marks, split, isMark⟩ := made.exists_mark
    rw [plainLine, split] at inCode marker
    have opening : commentMarker <+: guardMarker := ⟨['!'], rfl⟩
    exact (drops.code.inCodeAt isMark (marks ++ ['\n'])).1 place within inCode
      (opening.trans marker)
  · obtain ⟨later, rfl⟩ := Nat.exists_eq_add_of_le beyond
    rw [plainLine, ← List.drop_drop, List.drop_left] at marker
    exact made.noSlash (List.mem_of_mem_drop (marker.subset (.head _)))

theorem DropText.not_beginsDirective (drops : DropText delimiter statement) :
    ¬BeginsDirective (plainLine delimiter statement) := by
  obtain ⟨first, second, more, rfl, begins, -, secondLetter⟩ := drops.letters
  rintro ⟨length, found⟩
  rw [plainLine, List.cons_append, statementOffset_of_beginsToken begins,
    List.drop_zero] at found
  obtain ⟨keyword, padding, rest, split, same, -⟩ :=
    directiveLength_true_found_iff.mp ⟨_, found⟩
  rcases keyword with _ | ⟨head, _ | ⟨next, keyword⟩⟩
  · simp [Text.sameAsciiWord, directiveKeyword] at same
  · simp [Text.sameAsciiWord, directiveKeyword] at same
  · simp only [List.cons_append, List.cons.injEq] at split
    simp only [Text.sameAsciiWord, directiveKeyword, List.map_cons, beq_iff_eq,
      List.cons.injEq] at same
    rw [split.2.1, ← same.2.1] at secondLetter
    exact absurd secondLetter (by decide)

theorem DropText.completeLine_plainLine (drops : DropText delimiter statement)
    (made : MadeOfMarks delimiter) :
    CompleteLine options delimiter (plainLine delimiter statement) ∧
      freedLine options (plainLine delimiter statement) =
        plainLine delimiter statement := by
  have freed :=
    freedLine_of_stays (drops.guardsStay_plainLine made options.threshold)
  have behind := drops.inCodeAt_behind made
  refine ⟨⟨getLast?_append_delimiter statement delimiter, ?_, ?_⟩, freed⟩
  · rw [show (plainLine delimiter statement).length = _ from List.length_append,
      behind]
    exact made.inCodeAt_end
  · rw [freed]
    refine ⟨⟨statement, rfl, ?_, ?_, drops.undelimited⟩,
      drops.not_beginsDirective⟩
    · exact (behind 0).trans (Lexer.inCodeAt_zero _ _)
    · rw [plainLine, List.drop_left]
      exact List.prefix_append _ _

theorem DropText.scan_guardedLine (drops : DropText delimiter statement)
    (nonempty : digits ≠ [])
    (allDigits : ∀ digit ∈ digits, digit.isDigit = true) :
    Guard.scan (guardedLine delimiter digits statement) =
      .complete (guardOf digits statement) (delimiter.text ++ ['\n']) := by
  have content : GuardContent (' ' :: statement) :=
    .ordinary rfl (by simp [BeginsLineComment]) (by simp [commentMarker])
      (by simp [closingMarker])
      (drops.code.guardContent drops.noSlash)
  exact Guard.Begins.scan_eq ⟨rfl, nonempty, allDigits, by simp [guardOf],
    content⟩

private theorem completeLine_guardedLine (made : MadeOfMarks delimiter)
    (complete : Guard.scan (guardedLine delimiter digits statement) =
      .complete (guardOf digits statement) (delimiter.text ++ ['\n']))
    (stays : options.threshold ≤ versionOfDigits digits) :
    CompleteLine options delimiter (guardedLine delimiter digits statement) ∧
      freedLine options (guardedLine delimiter digits statement) =
        guardedLine delimiter digits statement := by
  have freed :=
    freedLine_of_stays (guardsStay_of_scan complete stays made.noSlash)
  obtain ⟨-, steps, crossed⟩ := Guard.reads_of_scan_complete complete
  have behind := SqlDump.inCodeAt_behind crossed
  refine ⟨⟨getLast?_append_delimiter _ delimiter, ?_, ?_⟩, freed⟩
  · rw [show (guardedLine delimiter digits statement).length =
      _ from List.length_append]
    exact (behind _).trans made.inCodeAt_end
  · rw [freed]
    refine ⟨⟨_, rfl, crossed.inCodeAt_append, ?_,
      fun earlier before inCode here => ?_⟩, ?_⟩
    · rw [guardedLine, List.drop_left]
      exact List.prefix_append _ _
    · rcases Nat.eq_zero_or_pos earlier with rfl | positive
      · obtain ⟨mark, marks, split, isMark⟩ := made.exists_mark
        rw [split] at here
        obtain ⟨rfl, -⟩ := List.cons_prefix_cons.mp here
        rcases isMark with same | same <;> exact absurd same (by decide)
      · have inside := not_inCodeAt_guard complete positive before
        rw [inside] at inCode
        exact absurd inCode Bool.false_ne_true
    · rintro ⟨length, found⟩
      rw [Guard.statementOffset_of_scan complete, List.drop_zero] at found
      exact absurd (head_of_directive found) (by decide)

namespace Session

/-- Pushing the line writes this, and the session holds nothing back behind
it. -/
def Leaves (options : CleanOptions) (delimiter : Delimiter) (session : Session)
    (line output : Text) : Prop :=
  (session.push line.encode).2.flatten = output ∧
    (session.push line.encode).1.Rests options delimiter

theorem Rests.leaves (rests : session.Rests options delimiter)
    (made : MadeOfMarks delimiter) {output : Text}
    (complete : CompleteLine options delimiter line ∧
        freedLine options line = line)
    (applied : ∀ state, (Stage.applyAll true options.stages state line).2 =
        output) :
    session.Leaves options delimiter line output := by
  obtain ⟨written, restsThen⟩ := rests.push_completeLine made complete.1
  refine ⟨?_, restsThen⟩
  rw [written, complete.2, Pipeline.process, rests.stages]
  simp [applied]

/-- Behind the line of a directive and complete lines, a plain statement that
drops something leaves nothing, and one in a guard that stays leaves the
delimiter from its first dollar sign on. -/
theorem leaves_drop_lines (noDrop : options.noDrop = true)
    (made : MadeOfMarks delimiter) :
    (∀ (catalog : Catalog) (lines : List Text),
      (∀ line ∈ lines, CompleteLine options delimiter line) →
        ((start options catalog).pushAll
          ((directiveLine delimiter :: lines).map Text.encode)).1.Rests options
            delimiter) ∧
    ∀ (session : Session) (digits statement : Text),
      session.Rests options delimiter →
      DropText delimiter statement → digits ≠ [] →
      (∀ digit ∈ digits, digit.isDigit = true) →
        options.threshold ≤ versionOfDigits digits →
        session.Leaves options delimiter (plainLine delimiter statement) [] ∧
        session.Leaves options delimiter
          (guardedLine delimiter digits statement)
          (fromDollar delimiter) ∧
        (fromDollar delimiter = [] ↔ ∀ mark ∈ delimiter.text, mark = ';') := by
  constructor
  · intro catalog lines complete
    have directive := ((rests_start options catalog).push_directiveLine made).2
    exact directive.pushAll_completeLines made complete
  · intro session digits statement rests drops nonempty allDigits stays
    have scanned : Guard.scan (guardedLine delimiter digits statement) = _ :=
      drops.scan_guardedLine nonempty allDigits
    refine ⟨?_, ?_, made.fromDollar_eq_nil_iff⟩
    · exact rests.leaves made (drops.completeLine_plainLine made)
        (drops.applyAll_plainLine made noDrop)
    · exact rests.leaves made (completeLine_guardedLine made scanned stays)
        (drops.applyAll_guardedLine made noDrop scanned)

def dollars : Delimiter :=
  ⟨['$', '$'], by simp⟩

private theorem madeOfMarks_dollars : MadeOfMarks dollars := by
  intro mark member
  simp only [dollars, List.mem_cons, List.not_mem_nil, or_false,
    or_self] at member
  exact .inr member

/-- The delimiter may stand in a name. -/
theorem dropText_dollars :
    DropText dollars "DROP TABLE \x60a$$b\x60".toList where
  keyword := by decide
  code := by
    have quoted : Literal '\x60' ['a', '$', '$', 'b', '\x60'] :=
      .character (by decide) (by decide) (.character (by decide) (by decide)
        (.character (by decide) (by decide)
          (.character (by decide) (by decide) .close)))
    have name : CodeText ('\x60' :: (['a', '$', '$', 'b', '\x60'] ++ [])) :=
      .literal rfl quoted .nil
    have whole :
        CodeText
          ("DROP TABLE ".toList ++ ['\x60', 'a', '$', '$', 'b', '\x60']) :=
      name.plain_append (Lexer.forall_not_mem_of_all (by decide))
    exact whole
  noSlash := by decide
  undelimited := by decide +kernel

/-- Behind another statement the drop of a table with two dollar signs in its
name. -/
theorem leaves_drop_lines_dollars :
    let options : CleanOptions := { noDrop := true }
    let statement := "DROP TABLE \x60a$$b\x60".toList
    let session := ((start options {}).pushAll
      ([directiveLine dollars, "SELECT 1$$\n".toList].map Text.encode)).1
    session.Leaves options dollars (plainLine dollars statement) [] ∧
      session.Leaves options dollars
        (guardedLine dollars "80000".toList statement)
        "$$\n".toList := by
  intro options statement session
  have noDrop : options.noDrop = true := rfl
  obtain ⟨reaches, leaves⟩ := leaves_drop_lines noDrop madeOfMarks_dollars
  have complete : CompleteLine options dollars "SELECT 1$$\n".toList :=
    ⟨by decide, by decide +kernel,
      ⟨"SELECT 1".toList, by decide +kernel, by decide +kernel⟩,
      by decide +kernel⟩
  have rests : session.Rests options dollars :=
    reaches {} ["SELECT 1$$\n".toList] (by
    intro line member
    rw [List.mem_singleton.mp member]
    exact complete)
  obtain ⟨plain, guarded, -⟩ :=
    leaves session "80000".toList statement rests dropText_dollars
    (by decide) (List.all_eq_true.mp (by decide)) (by decide)
  exact ⟨plain, guarded⟩

/-- The guarded statement leaves its delimiter, the plain one does not. -/
theorem guarded_drop_leaves_delimiter :
    (cleanBytes { noDrop := true } {}
        (Text.encode "DELIMITER $$\n/*!80000 DROP TABLE a*/$$\n".toList)).1 =
          "DELIMITER $$\n$$\n".toList ∧
      (cleanBytes { noDrop := true } {}
        (Text.encode "DELIMITER $$\nDROP TABLE a$$\n".toList)).1 =
          "DELIMITER $$\n".toList := by
  decide +kernel

end Session

end SqlDump
