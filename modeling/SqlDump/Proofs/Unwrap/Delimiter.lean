import SqlDump.Proofs.Statement.Directive
import SqlDump.Proofs.Unwrap.Terminator

/-!
# Delimiters behind guards

A delimiter other than the semicolon stands behind a guard as a whole, but only
a semicolon moves onto the freed text.  So a delimiter that begins with a
semicolon is torn apart where blanks end the freed text, and it is found too
early where the text ends like the delimiter begins.
-/

namespace SqlDump

namespace Unwrapper

/-- The freed text with the delimiter that followed its guard. -/
def delimited (delimiter : Delimiter) (body : Text) : Text :=
  match delimiter.text with
  | ';' :: more => terminated body ++ more
  | word => body ++ word

/-- The freed text in front of the delimiter. -/
def undelimited (delimiter : Delimiter) (body : Text) : Text :=
  if delimiter.text.head? = some ';' then bareBody body else body

end Unwrapper

/-- The delimiter ends the freed text: it is not torn apart, it stands in code
for the first time, and no directive comes first. -/
structure KeepsDelimiter (delimiter : Delimiter) (body : Text) : Prop where
  whole : delimiter = .semicolon ∨ delimiter.text.head? ≠ some ';' ∨
    body.trimEnd = body
  firstInCode : ({} : Lexer).FirstInCode delimiter.text
    (Unwrapper.undelimited delimiter body ++ delimiter.text)
    (Unwrapper.undelimited delimiter body).length
  noDirective : ¬BeginsDirective (Unwrapper.undelimited delimiter body ++
    delimiter.text)

instance (delimiter : Delimiter) (body : Text) :
    Decidable (KeepsDelimiter delimiter body) :=
  decidable_of_iff
    ((delimiter = .semicolon ∨ delimiter.text.head? ≠ some ';' ∨
      body.trimEnd = body) ∧
      ({} : Lexer).FirstInCode delimiter.text
        (Unwrapper.undelimited delimiter body ++ delimiter.text)
        (Unwrapper.undelimited delimiter body).length ∧
      ¬BeginsDirective (Unwrapper.undelimited delimiter body ++ delimiter.text))
    ⟨fun ⟨whole, firstInCode, noDirective⟩ => ⟨whole, firstInCode, noDirective⟩,
      fun ⟨whole, firstInCode,
        noDirective⟩ => ⟨whole, firstInCode, noDirective⟩⟩

/-- The unit is a statement of the freed text and a whole delimiter, apart from
blanks at its end. -/
def EndsFreed (delimiter : Delimiter) (freed : Text) (unit : StatementUnit) :
    Prop :=
  unit.kind = .statement ∧ ∃ front blanks tail,
    freed = front ++ (delimiter.text ++ blanks) ∧
    unit.text = front ++ (delimiter.text ++ tail) ∧
    (∀ character ∈ blanks, isBlank character = true) ∧
    ∀ character ∈ tail, isBlank character = true

section

variable {delimiter : Delimiter} {body front blanks rest : Text}

/-- Blanks are all that stands behind the delimiter, so the text in front of it
is known. -/
theorem MadeOfMarks.front_unique (made : MadeOfMarks delimiter)
    {first second before behind : Text}
    (same : first ++ (delimiter.text ++ before) =
        second ++ (delimiter.text ++ behind))
    (blankBefore : ∀ character ∈ before, isBlank character = true)
    (blankBehind : ∀ character ∈ behind, isBlank character = true) :
    first = second := by
  have trimmed := congrArg Text.trimEnd same
  rw [Text.trimEnd_append first delimiter.nonempty made.visible blankBefore,
    Text.trimEnd_append second delimiter.nonempty made.visible blankBehind]
      at trimmed
  exact List.append_cancel_right trimmed

namespace Unwrapper

private theorem delimited_of_other (other : delimiter.text.head? ≠ some ';')
    (body : Text) :
    delimited delimiter body = undelimited delimiter body ++
      (delimiter.text ++ []) := by
  rw [delimited, undelimited, if_neg other, List.append_nil]
  split
  · next more textEq => simp [textEq] at other
  · rfl

theorem delimited_of_semicolon {more : Text}
    (textEq : delimiter.text = ';' :: more) (body : Text) :
    delimited delimiter body =
      undelimited delimiter body ++ ';' ::
      (body.drop body.trimEnd.length ++ more) := by
  rw [delimited, undelimited, textEq, List.head?_cons, if_pos rfl]
  change terminated body ++ more = _
  rw [terminated_eq_bareBody, List.append_assoc]
  rfl

theorem delimited_of_whole
    (whole : delimiter = .semicolon ∨ delimiter.text.head? ≠ some ';' ∨
      body.trimEnd = body) :
    ∃ blanks, delimited delimiter body =
        undelimited delimiter body ++ (delimiter.text ++ blanks) ∧
      ∀ character ∈ blanks, isBlank character = true := by
  by_cases other : delimiter.text.head? = some ';'
  · obtain ⟨more, textEq⟩ := List.head?_eq_some_iff.mp other
    have split := delimited_of_semicolon textEq body
    rw [split, textEq]
    rcases whole with rfl | noSemicolon | trimmed
    · obtain rfl := (List.cons.inj textEq).2
      refine ⟨body.drop body.trimEnd.length, ?_, body.trimEnd_append_drop.2⟩
      rw [List.append_nil]
      rfl
    · exact absurd other noSemicolon
    · refine ⟨[], ?_, List.forall_mem_nil _⟩
      rw [trimmed, List.drop_length, List.append_nil]
      rfl
  · exact ⟨[], delimited_of_other other body, List.forall_mem_nil _⟩

private theorem whole_of_delimited (made : MadeOfMarks delimiter)
    (split : delimited delimiter body = front ++ (delimiter.text ++ blanks))
    (blank : ∀ character ∈ blanks, isBlank character = true) :
    delimiter = .semicolon ∨ delimiter.text.head? ≠ some ';' ∨
      body.trimEnd = body := by
  by_cases other : delimiter.text.head? = some ';'
  · obtain ⟨more, textEq⟩ := List.head?_eq_some_iff.mp other
    obtain ⟨bodyEq, blanksBehind⟩ := body.trimEnd_append_drop
    have moved := delimited_of_semicolon textEq body
    generalize body.drop body.trimEnd.length = torn at bodyEq blanksBehind moved
    by_cases none : more = []
    · left
      cases delimiter with
      | mk text nonempty =>
          change text = ';' :: more at textEq
          subst textEq none
          rfl
    · right
      right
      rcases List.eq_nil_or_concat torn with rfl | ⟨start, last, rfl⟩
      · rw [List.append_nil] at bodyEq
        exact bodyEq.symm
      · exfalso
        have visible : ∀ character ∈ more, isBlank character = false := by
          intro character member
          exact made.visible character (by rw [textEq]; exact .tail _ member)
        have both : (undelimited delimiter body ++ ';' :: start.concat last) ++
            (more ++ []) =
            front ++ (delimiter.text ++ blanks) := by
          rw [← split, moved]
          simp
        -- Both sides are trimmed; in front of `more` one ends in a blank, the
        -- other does not.
        have trimmed := congrArg Text.trimEnd both
        rw [Text.trimEnd_append _ none visible (List.forall_mem_nil _),
          Text.trimEnd_append front delimiter.nonempty made.visible blank,
          textEq, ← List.singleton_append (l := more),
          ← List.append_assoc front] at trimmed
        have ends := congrArg List.getLast? (List.append_cancel_right trimmed)
        rw [List.concat_eq_append, ← List.cons_append, ← List.append_assoc,
          List.getLast?_concat, List.getLast?_concat] at ends
        obtain rfl := Option.some.inj ends
        exact absurd (blanksBehind ';' (by simp)) (by decide)
  · exact .inr (.inl other)

end Unwrapper

theorem MadeOfMarks.firstInCode_congr (made : MadeOfMarks delimiter)
    {text first : Text}
    (found : ({} : Lexer).FirstInCode delimiter.text
        (text ++ (delimiter.text ++ first)) text.length) (second : Text) :
    ({} : Lexer).FirstInCode delimiter.text (text ++ (delimiter.text ++ second))
      text.length := by
  obtain ⟨mark, more, textEq⟩ := List.exists_cons_of_ne_nil delimiter.nonempty
  have isMark := made mark (by rw [textEq]; exact .head more)
  rw [textEq] at found ⊢
  exact found.congr_behind (mark_spec isMark).1 second

theorem MadeOfMarks.beginsDirective_congr (made : MadeOfMarks delimiter)
    {text first : Text}
    (inCode : ({} : Lexer).inCodeAt (text ++ (delimiter.text ++ first))
        text.length = true)
    (begins : BeginsDirective (text ++ (delimiter.text ++ first)))
    (second : Text) :
    BeginsDirective (text ++ (delimiter.text ++ second)) := by
  obtain ⟨mark, more, textEq⟩ := List.exists_cons_of_ne_nil delimiter.nonempty
  obtain ⟨separates, visible, plain, noLetter⟩ :=
    mark_spec (made mark (by rw [textEq]; exact .head more))
  rw [textEq] at inCode begins ⊢
  exact begins.congr_behind separates visible plain noLetter inCode _

/-- What stands in front of the delimiter in a statement, and the blanks behind
it. -/
theorem take_of_terminator {text word : Text} {count tailLength : Nat}
    (here : word <+: text.drop count)
    (known : unitTail? true (text.drop (count + word.length)) =
        some tailLength) :
    ∃ tail, text.take (count + word.length + tailLength) = text.take count ++
      (word ++ tail) ∧
      ∀ character ∈ tail, isBlank character = true := by
  obtain ⟨rest, split⟩ := here
  rw [← List.drop_drop, ← split, List.drop_left] at known
  refine ⟨rest.take tailLength, ?_, fun character member =>
    isBlank_of_isAsciiBlank (unitTail?_plain known character member)⟩
  rw [Nat.add_assoc, List.take_add, ← split, List.take_length_add_append]

theorem MadeOfMarks.length_front (made : MadeOfMarks delimiter)
    {text front tail : Text} {count tailLength : Nat}
    (here : delimiter.text <+: text.drop count)
    (known : unitTail? true (text.drop (count + delimiter.text.length)) =
        some tailLength)
    (taken : text.take (count + delimiter.text.length + tailLength) =
        front ++ (delimiter.text ++ tail))
    (blank : ∀ character ∈ tail, isBlank character = true) :
    count = front.length := by
  obtain ⟨behind, takeEq, blankBehind⟩ := take_of_terminator here known
  obtain rfl := made.front_unique (takeEq.symm.trans taken) blankBehind blank
  have within : count ≤ text.length := by
    apply Nat.le_of_not_lt
    intro beyond
    rw [List.drop_eq_nil_of_le (Nat.le_of_lt beyond), List.prefix_nil] at here
    exact delimiter.nonempty here
  rw [List.length_take, Nat.min_eq_left within]

private theorem firstStatement_endsFreed_iff (made : MadeOfMarks delimiter)
    (body rest : Text) :
    (∃ unit, ({ delimiter := delimiter
                ahead := Unwrapper.delimited delimiter body ++ rest } :
          StatementAssembler).FirstStatement unit ∧
        EndsFreed delimiter (Unwrapper.delimited delimiter body) unit) ↔
      KeepsDelimiter delimiter body := by
  have alone (text : Text) : text ++ delimiter.text =
      text ++ (delimiter.text ++ []) := by
    rw [List.append_nil]
  constructor
  · rintro ⟨unit, ⟨noDirective, count, tailLength, terminator, known, rfl⟩, -,
      front, behind, tail, freedEq, textEq, blankBehind, blankTail⟩
    have whole := Unwrapper.whole_of_delimited made freedEq blankBehind
    obtain ⟨blanks, split, blank⟩ := Unwrapper.delimited_of_whole whole
    obtain rfl := made.front_unique (freedEq.symm.trans split) blankBehind blank
    obtain rfl := made.length_front terminator.here known textEq blankTail
    have aheadEq : Unwrapper.delimited delimiter body ++ rest =
        Unwrapper.undelimited delimiter body ++
        (delimiter.text ++ (blanks ++ rest)) := by
      rw [split, List.append_assoc, List.append_assoc]
    change ({} : Lexer).FirstInCode delimiter.text (_ ++ rest) _ at terminator
    rw [aheadEq] at terminator
    refine ⟨whole, ?_, fun begins => noDirective ⟨rfl, ?_⟩⟩
    · rw [alone]
      exact made.firstInCode_congr terminator []
    · change BeginsDirective (_ ++ rest)
      rw [aheadEq]
      rw [alone] at begins
      exact made.beginsDirective_congr
        (made.firstInCode_congr terminator []).inCode begins _
  · rintro ⟨whole, firstInCode, noDirective⟩
    obtain ⟨blanks, split, blank⟩ := Unwrapper.delimited_of_whole whole
    have aheadEq : Unwrapper.delimited delimiter body ++ rest =
        Unwrapper.undelimited delimiter body ++
        (delimiter.text ++ (blanks ++ rest)) := by
      rw [split, List.append_assoc, List.append_assoc]
    rw [alone] at firstInCode noDirective
    have terminator := made.firstInCode_congr firstInCode (blanks ++ rest)
    rw [← aheadEq] at terminator
    obtain ⟨tailLength, known⟩ := Option.ne_none_iff_exists'.mp
      (unitTail?_true_ne_none ((Unwrapper.delimited delimiter body ++ rest).drop
        ((Unwrapper.undelimited delimiter body).length +
          delimiter.text.length)))
    obtain ⟨tail, takeEq, blankTail⟩ := take_of_terminator terminator.here known
    have frontEq : (Unwrapper.delimited delimiter body ++ rest).take
        (Unwrapper.undelimited delimiter body).length =
          Unwrapper.undelimited delimiter body := by
      rw [aheadEq]
      exact List.take_left' rfl
    rw [frontEq] at takeEq
    refine ⟨_,
      ⟨fun directs => noDirective ?_, _, tailLength, terminator, known, rfl⟩,
      rfl, _, blanks, tail, split, takeEq, blank, blankTail⟩
    have begins :
        BeginsDirective (Unwrapper.delimited delimiter body ++ rest) :=
      directs.found
    rw [aheadEq] at terminator begins
    exact made.beginsDirective_congr terminator.inCode begins []

private theorem blockPieces_noTerminator {threshold : Nat} {guard : Guard}
    {following : Text} (collapse : Collapse)
    (below : shouldUnwrap guard.version threshold = true)
    (noTerminator : following.head? ≠ some ';') :
    Document.blockPieces threshold collapse (guard, following) =
      [.replaced guard.raw (Unwrapper.strippedInner guard),
        .copied following] := by
  simp only [Document.blockPieces, below, if_true]
  split
  · simp at noTerminator
  · rfl

/-- A guard leaves with the delimiter behind it, and at most a line break behind
the delimiter goes. -/
theorem results_delimited {threshold : Nat} {guard : Guard}
    (collapse : Collapse) (made : MadeOfMarks delimiter) (following : Text)
    (below : shouldUnwrap guard.version threshold = true) :
    ∃ gone kept, following = gone ++ kept ∧
      (∀ character ∈ gone, character = '\n' ∨ character = '\r') ∧
      results (Document.blockPieces threshold collapse (guard,
        delimiter.text ++ following)) =
        Unwrapper.delimited delimiter (Unwrapper.strippedInner guard) ++
        kept := by
  obtain ⟨mark, more, textEq⟩ := List.exists_cons_of_ne_nil delimiter.nonempty
  by_cases semicolon : mark = ';'
  · subst semicolon
    obtain ⟨gone, kept, split, lineBreak, blockEq⟩ :=
      blockPieces_terminator collapse (more ++ following) below
    have freedEq :
        Unwrapper.delimited delimiter (Unwrapper.strippedInner guard) =
          Unwrapper.terminated (Unwrapper.strippedInner guard) ++ more := by
      simp only [Unwrapper.delimited, textEq]
    rw [textEq, List.cons_append, blockEq, freedEq]
    cases more with
    | nil =>
        exact ⟨gone, kept, split, lineBreak, by simp [results, Piece.result]⟩
    | cons second more =>
        cases gone with
        | nil =>
            refine ⟨[], following, rfl, List.forall_mem_nil _, ?_⟩
            rw [List.nil_append] at split
            simp [results, Piece.result, ← split]
        | cons head gone =>
            obtain ⟨rfl, -⟩ := List.cons.inj split
            have isMark := made second (by simp [textEq])
            have isBreak := lineBreak second (.head gone)
            rcases isMark with rfl | rfl <;> simp at isBreak
  · have noTerminator : (delimiter.text ++ following).head? ≠ some ';' := by
      simpa [textEq] using semicolon
    have freedEq :
        Unwrapper.delimited delimiter (Unwrapper.strippedInner guard) =
          Unwrapper.strippedInner guard ++ delimiter.text := by
      rw [Unwrapper.delimited]
      split
      · next other =>
          exact absurd (List.cons.inj (textEq.symm.trans other)).1 semicolon
      · rfl
    rw [blockPieces_noTerminator collapse below noTerminator, freedEq]
    exact ⟨[], following, rfl,
      List.forall_mem_nil _, by simp [results, Piece.result]⟩

/-- Behind the line that puts a delimiter of semicolons and dollar signs in
force, the delimiter behind a guard ends the freed text as a statement exactly
if it stays whole, stands in code for the first time, and no directive begins
the freed text. -/
theorem unwrap_delimits_iff (threshold : Nat) (collapse : Collapse)
    {text following : Text} {guard : Guard} (made : MadeOfMarks delimiter)
    (begins : Guard.scan text = .complete guard (delimiter.text ++ following))
    (below : shouldUnwrap guard.version threshold = true) :
    let freed := Unwrapper.delimited delimiter (Unwrapper.strippedInner guard)
    let output :=
      (Unwrapper.unwrap { threshold := threshold, collapse := collapse }
        (segmentsOf (directiveLine delimiter ++ text))).2
    ∃ gone pieces, following = gone ++ originals pieces ∧
      (∀ character ∈ gone, character = '\n' ∨ character = '\r') ∧
      output = directiveLine delimiter ++ (freed ++ results pieces) ∧
      (unitsOf output).head? =
        some ⟨.directive, true, directiveLine delimiter⟩ ∧
      ((∃ unit,
          (unitsOf output)[1]? = some unit ∧ EndsFreed delimiter freed unit) ↔
        KeepsDelimiter delimiter (Unwrapper.strippedInner guard)) := by
  intro freed output
  have wordPlain : ∀ character ∈ delimiter.text, character ∉ Lexer.openers :=
    fun character member => (mark_spec (made character member)).2.2.1
  have linePlain : ∀ character ∈ directiveLine delimiter,
      character ∉ Lexer.openers := by
    intro character member
    have keywordPlain : ∀ character ∈ directiveKeyword,
        character ∉ Lexer.openers := by
      have plain : directiveKeyword.all (fun character =>
        !Lexer.openers.contains character) =
          true := by decide
      simpa [List.all_eq_true] using plain
    rcases List.mem_append.mp member with keyword | arguments
    · exact keywordPlain character keyword
    · simp only [List.mem_cons, List.mem_append, List.not_mem_nil, or_false]
        at arguments
      rcases arguments with rfl | word | rfl
      · decide
      · exact wordPlain character word
      · decide
  obtain ⟨behind, blocks, documentEq, followingEq⟩ :=
    documentOf_of_scan linePlain begins wordPlain
  obtain ⟨gone, kept, behindEq, lineBreak, blockEq⟩ :=
    results_delimited collapse made behind below
  let pieces : List Piece :=
    .copied kept :: blocks.flatMap (Document.blockPieces threshold collapse)
  have outputEq : output = directiveLine delimiter ++
      (freed ++ results pieces) := by
    have whole : output =
        results ((documentOf (directiveLine delimiter ++ text)).pieces threshold
          collapse) :=
      unwrap_segmentsOf threshold collapse _
    rw [whole, documentEq, Document.pieces, results_cons, List.flatMap_cons,
      results_append, blockEq, List.append_assoc]
    rfl
  refine ⟨gone, pieces, ?_, lineBreak, outputEq, ?_⟩
  · rw [followingEq, ← Document.originals_mk threshold collapse, behindEq,
      List.append_assoc]
    rfl
  · obtain ⟨first, second⟩ :=
      unitsOf_directiveLine made (freed ++ results pieces)
    rw [outputEq]
    refine ⟨first, ?_⟩
    rw [← firstStatement_endsFreed_iff made _ (results pieces)]
    constructor
    · rintro ⟨unit, found, ends⟩
      exact ⟨unit, (second unit).mp ⟨found, ends.1⟩, ends⟩
    · rintro ⟨unit, statement, ends⟩
      exact ⟨unit, ((second unit).mpr statement).1, ends⟩

end

def doubleSemicolon : Delimiter :=
  ⟨[';', ';'], List.cons_ne_nil _ _⟩

def eventDump : Text :=
  "/*!50003 CREATE EVENT e DO SET @a = 1; */;;\n".toList

theorem unwrap_delimits_event :
    let guard : Guard :=
      ⟨"50003".toList, " CREATE EVENT e DO SET @a = 1; ".toList⟩
    MadeOfMarks doubleSemicolon ∧
      Guard.scan eventDump = .complete guard (doubleSemicolon.text ++ ['\n']) ∧
      shouldUnwrap guard.version defaultThreshold = true ∧
      ∃ unit, (unitsOf (Unwrapper.unwrap {}
          (segmentsOf (directiveLine doubleSemicolon ++ eventDump))).2)[1]? =
            some unit ∧
        EndsFreed doubleSemicolon
          "CREATE EVENT e DO SET @a = 1;;".toList unit := by
  intro guard
  have made : MadeOfMarks doubleSemicolon := by
    simp [MadeOfMarks, doubleSemicolon]
  have begins : Guard.scan eventDump =
      .complete guard (doubleSemicolon.text ++ ['\n']) := by
    decide +kernel
  have below : shouldUnwrap guard.version defaultThreshold = true := by
    decide +kernel
  obtain ⟨gone, pieces, -, -, -, -, decided⟩ :=
    unwrap_delimits_iff defaultThreshold .any made begins below
  have freed :
      Unwrapper.delimited doubleSemicolon (Unwrapper.strippedInner guard) =
        "CREATE EVENT e DO SET @a = 1;;".toList := by
    decide +kernel
  rw [freed] at decided
  exact ⟨made, begins, below, decided.mpr (by decide +kernel)⟩

/-- The guard closes on a line of its own. -/
def procedureDump : Text :=
  ("/*!50003 CREATE PROCEDURE p() BEGIN END\n*/;;\n" ++
    "DELIMITER ;\nSELECT 1;\n").toList

theorem unwrap_tears_delimiter :
    let guard : Guard :=
      ⟨"50003".toList, " CREATE PROCEDURE p() BEGIN END\n".toList⟩
    let output := (Unwrapper.unwrap {}
      (segmentsOf (directiveLine doubleSemicolon ++ procedureDump))).2
    let freed :=
      Unwrapper.delimited doubleSemicolon (Unwrapper.strippedInner guard)
    Guard.scan procedureDump = .complete guard
        (doubleSemicolon.text ++ "\nDELIMITER ;\nSELECT 1;\n".toList) ∧
      shouldUnwrap guard.version defaultThreshold = true ∧ '*' ∉ guard.inner ∧
      '-' ∉ guard.inner ∧ '#' ∉ guard.inner ∧ ';' ∉ guard.inner ∧
      ¬BeginsDirective guard.inner ∧
      (({} : Scanner).feed
        (guardMarker ++ guard.digits ++ guard.inner)).1.lexer =
        ({} : Lexer).enterGuard ∧
      output = directiveLine doubleSemicolon ++
        "CREATE PROCEDURE p() BEGIN END;\n;\nDELIMITER ;\nSELECT 1;\n".toList ∧
      (unitsOf output).map StatementUnit.kind = [.directive, .trailing] ∧
      ¬∃ unit, (unitsOf output)[1]? = some unit ∧
      EndsFreed doubleSemicolon freed unit := by
  intro guard output freed
  have second : (unitsOf output)[1]?.map StatementUnit.kind =
      some .trailing := by decide +kernel
  refine ⟨by decide +kernel, by decide +kernel, by decide, by decide,
    by decide, by decide, by decide +kernel, by decide +kernel,
    by decide +kernel, by decide +kernel, ?_⟩
  rintro ⟨unit, found, statement, -⟩
  rw [found, Option.map_some, statement] at second
  exact absurd second (by decide)

end SqlDump
