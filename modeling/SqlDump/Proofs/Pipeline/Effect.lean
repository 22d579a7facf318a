import SqlDump.Proofs.Pipeline.Insertion
import SqlDump.Proofs.Statement.Delimiters

/-!
# Whether inserted options take effect

Options are inserted where the visible text of the options line ends.  They are
code exactly if this text, read on its own, ends in code; a comment or a literal
that is still open swallows them.  They stand in front of the terminator exactly
if the options line ends there: a terminator that does not begin with a
semicolon is taken for the last option of its line.
-/

namespace SqlDump

namespace Lexer

variable {lexer : Lexer} {front run rest : Text} {index : Nat}

private theorem inCodeAt_of_places {text : Text}
    (code : (lexer.places text)[index]? = some .code) :
    lexer.inCodeAt text index = true := by
  fun_induction places lexer text generalizing index with
  | case1 lexer => simp at code
  | case2 lexer head tail ih =>
      rw [← places] at code
      rcases Nat.lt_or_ge index (lexer.taken (head :: tail)) with
          inside | behind
      · rw [getElem?_places_of_lt inside] at code
        obtain ⟨before, after⟩ := Place.mk.inj (Option.some.inj code)
        have top := lexicalClass_eq_code_iff.mp before
        cases index with
        | zero => rwa [inCodeAt_zero]
        | succ index =>
            rw [inCodeAt, if_neg (Nat.not_le_of_lt inside), top,
              lexicalClass_eq_code_iff.mp after]
            rfl
      · obtain ⟨later, rfl⟩ := Nat.exists_eq_add_of_le behind
        rw [getElem?_places_of_le behind, Nat.add_sub_cancel_left] at code
        rw [inCodeAt_taken_add]
        exact ih code

/-- A run of plain characters is code exactly if it begins in code. -/
theorem places_run_iff (plain : ∀ character ∈ run, character ∉ openers)
    (nonempty : run ≠ []) :
    (∀ index < run.length,
      (({} : Lexer).places (front ++ (run ++ rest)))[front.length + index]? =
        some .code) ↔
        ({} : Lexer).inCodeAt (front ++ (run ++ rest)) front.length = true := by
  constructor
  · intro allCode
    exact inCodeAt_of_places (allCode 0 (List.length_pos_iff.mpr nonempty))
  · intro inCode index within
    have placesEq : (({} : Lexer).places (front ++ (run ++ rest))).drop
      front.length =
        List.replicate run.length .code ++ ({} : Lexer).places rest := by
      rw [places_drop proper_start inCode, List.drop_left,
        places_plains rest rfl plain]
    rw [← List.getElem?_drop, placesEq,
      List.getElem?_append_left (by rwa [List.length_replicate]),
      List.getElem?_replicate, if_pos within]

end Lexer

variable {text lead named columns behind : Text} {create : Ddl.CreateTable}

theorem CreatesTable.inCodeAt_behind
    (creates : CreatesTable text lead named columns behind create)
    (count : Nat) :
    ({} : Lexer).inCodeAt text
      ((throughList lead named columns).length + count) =
      ({} : Lexer).inCodeAt behind count := by
  obtain ⟨steps, reads⟩ := creates.reads
  have split : text = (lead ++ named) ++ (columns ++ ')' :: behind) := by
    rw [List.append_assoc]
    exact creates.text_eq
  rw [split] at reads ⊢
  have lengthEq : (throughList lead named columns).length + count =
      (lead ++ named).length + (columns.length + (count + 1)) := by
    simp only [throughList, List.length_append, List.length_singleton]
    omega
  rw [lengthEq, SqlDump.inCodeAt_behind reads,
    Lexer.inCodeAt_add _ Lexer.proper_start creates.list.closes, List.drop_left,
    Lexer.inCodeAt_of_plain _ _ rfl (by decide)]

/-- No character of the delimiter is a blank. -/
def Delimiter.Visible (delimiter : Delimiter) : Prop :=
  ∀ character ∈ delimiter.text, isBlank character = false

theorem SetsDelimiter.visible {delimiter next : Delimiter} {arguments : Text}
    (sets : SetsDelimiter delimiter arguments next)
    (visible : delimiter.Visible) :
    next.Visible := by
  cases sets with
  | word next blank visibleNext ends => exact visibleNext
  | none blank => exact visible

/-- Every statement of a stream ends at the delimiter that is in force there. -/
theorem UnitsCut.statement_cut {delimiter : Delimiter}
    {units earlier later : List StatementUnit} {atLineStart : Bool}
    (cut : UnitsCut delimiter units) (visible : delimiter.Visible)
    (split : units = earlier ++ ⟨.statement, atLineStart, text⟩ :: later) :
    ∃ inForce front tail, inForce.Visible ∧
      CutAtDelimiter inForce text (later.flatMap StatementUnit.text)
        front tail := by
  induction cut generalizing earlier with
  | nil delimiter => simp at split
  | @statement delimiter first unit front tail units cut behind ih =>
      cases earlier with
      | nil =>
          obtain ⟨same, rfl⟩ := List.cons.inj split
          obtain ⟨-, -, rfl⟩ := StatementUnit.mk.inj same
          exact ⟨delimiter, front, tail, visible, cut⟩
      | cons head earlier => exact ih visible (List.cons.inj split).2
  | directive line sets behind ih =>
      cases earlier with
      | nil => simp at split
      | cons head earlier =>
          exact ih (sets.visible visible) (List.cons.inj split).2
  | trailing nowhere =>
      cases earlier with
      | nil => simp at split
      | cons head earlier => simp at split

/-- The options end in front of a delimiter that `middle` separates from the
column list. -/
def OptionsEndBefore (delimiter : Delimiter) (middle behind : Text) : Prop :=
  delimiter.text.head? = some ';' ∨ '\n' ∈ middle ∨
    ∃ count < middle.length, ({} : Lexer).StandsAt ';' behind count = true

variable {delimiter : Delimiter} {front tail following : Text}

theorem CutAtDelimiter.inCodeAt
    (cut : CutAtDelimiter delimiter text following front tail) :
    ({} : Lexer).inCodeAt text front.length = true := by
  obtain ⟨steps, after, reads, top⟩ := cut.alone.here
  rw [cut.text, reads.inCodeAt_append, top]

theorem EndsLineBehind.isBlank (ends : EndsLineBehind tail) :
    ∀ character ∈ tail, isBlank character = true := by
  obtain ⟨padding, lineBreak, rfl, padded, broken⟩ := ends
  intro character member
  rcases List.mem_append.mp member with inPadding | inBreak
  · have pads := padded character inPadding
    simp only [isPadding, Bool.or_eq_true, beq_iff_eq] at pads
    rcases pads with rfl | rfl <;> rfl
  · have either : character = '\n' ∨ character = '\r' := by
      rcases broken with rfl | rfl | rfl
      · simp at inBreak
      · exact .inl (List.mem_singleton.mp inBreak)
      · simpa [or_comm] using inBreak
    rcases either with rfl | rfl <;> rfl

/-- A delimiter without a parenthesis stands behind the column list. -/
theorem CutAtDelimiter.behind_list
    (cut : CutAtDelimiter delimiter text following front tail)
    (creates : CreatesTable text lead named columns behind create)
    (noBracket : ')' ∉ delimiter.text) :
    ∃ middle, front = throughList lead named columns ++ middle := by
  have split := creates.text_eq
  rw [← throughList_append, cut.text] at split
  rcases List.append_eq_append_iff.mp split with
      ⟨between, closedEq, restEq⟩ | ⟨between, same, -⟩
  · rcases List.eq_nil_or_concat between with rfl | ⟨init, last, rfl⟩
    · exact ⟨[], by rw [closedEq]; simp⟩
    · -- The parenthesis would stand in the delimiter or among the blanks behind
      -- it.
      have lastEq := congrArg List.getLast? closedEq
      obtain rfl : ')' = last := by
        simpa [throughList, ← List.append_assoc] using lastEq
      have member : ')' ∈ delimiter.text ++ tail := by
        rw [restEq]
        simp
      rcases List.mem_append.mp member with inDelimiter | inTail
      · exact absurd inDelimiter noBracket
      · exact absurd (cut.ends.isBlank ')' inTail) (by decide)
  · exact ⟨between, same⟩

namespace TableOptions

variable {middle more options rest : Text} {mark : Char}

/-- Where the options end, seen from a place in code behind the column list. -/
theorem OptionsLine.length_le_iff (line : OptionsLine behind options rest)
    (split : behind = middle ++ mark :: more) (noBreak : mark ≠ '\n')
    (inCode : ({} : Lexer).inCodeAt behind middle.length = true) :
    options.length ≤ middle.length ↔ mark = ';' ∨ '\n' ∈ middle ∨
      ∃ count < middle.length, ({} : Lexer).StandsAt ';' behind count =
        true := by
  have markAt : behind[middle.length]? = some mark := by simp [split]
  have inMiddle {index : Nat} (before : index < middle.length)
      {character : Char}
      (here : behind[index]? = some character) : character ∈ middle := by
    rw [split, List.getElem?_append_left before] at here
    exact List.mem_of_getElem? here
  constructor
  · intro within
    rcases Nat.lt_or_eq_of_le within with before | atMark
    · rcases line.ends with rfl | lineBreak | terminator
      · have lengthEq := congrArg List.length (line.split.symm.trans split)
        simp only [List.append_nil, List.length_append, List.length_cons]
          at lengthEq
        omega
      · refine .inr (.inl (inMiddle before ?_))
        rw [line.split, List.getElem?_append_right (Nat.le_refl _),
          Nat.sub_self, ← List.head?_eq_getElem?, lineBreak]
      · exact .inr (.inr ⟨options.length, before, terminator⟩)
    · rw [← atMark] at markAt
      have headEq : rest.head? = some mark := by
        rwa [line.split, List.getElem?_append_right (Nat.le_refl _),
          Nat.sub_self, ← List.head?_eq_getElem?] at markAt
      rcases line.ends with rfl | lineBreak | terminator
      · simp at headEq
      · exact absurd (Option.some.inj (headEq.symm.trans lineBreak)) noBreak
      · have semicolon := (Lexer.standsAt_iff.mp terminator).2
        exact .inl (Option.some.inj (markAt.symm.trans semicolon))
  · intro ends
    apply Nat.le_of_not_lt
    intro longer
    rcases ends with rfl | lineBreak | ⟨count, before, terminator⟩
    · have stands := Lexer.standsAt_iff.mpr ⟨inCode, markAt⟩
      rw [line.noTerminator middle.length longer] at stands
      exact absurd stands Bool.false_ne_true
    · have inFront : middle <+: options :=
        List.prefix_of_prefix_length_le ⟨_, split.symm⟩ ⟨_, line.split.symm⟩
          (Nat.le_of_lt longer)
      exact line.oneLine (inFront.subset lineBreak)
    · rw [line.noTerminator count (Nat.lt_trans before longer)] at terminator
      exact absurd terminator Bool.false_ne_true

end TableOptions

open TableOptions (keptOptions options_parts)

/-- The visible options stand in front of the delimiter exactly if the options
end there. -/
theorem before_delimiter_iff
    (creates : CreatesTable text lead named columns behind create)
    (cut : CutAtDelimiter delimiter text following front tail)
    (visible : delimiter.Visible) :
    (throughList lead named columns ++ keptOptions behind).length ≤
      front.length ↔
      ∃ middle, front = throughList lead named columns ++ middle ∧
        OptionsEndBefore delimiter middle behind := by
  have split := creates.text_eq
  rw [← throughList_append, cut.text] at split
  obtain ⟨mark, marks, markEq⟩ := List.exists_cons_of_ne_nil delimiter.nonempty
  have markVisible : isBlank mark = false :=
    visible mark (by rw [markEq]; exact List.mem_cons_self)
  -- With the delimiter behind the column list, the options line decides.
  have decided (middle : Text) (same : front = throughList lead named columns ++
      middle) :
      (keptOptions behind).length ≤ middle.length ↔
        OptionsEndBefore delimiter middle behind := by
    have inCode := cut.inCodeAt
    rw [same, List.length_append, creates.inCodeAt_behind] at inCode
    have behindEq : behind = middle ++ mark :: (marks ++ tail) := by
      apply List.append_cancel_left
      rw [← split, same, markEq]
      simp
    obtain ⟨blanks, rest, parts, -, -, blank, line⟩ := options_parts behind
    rw [← parts] at line
    have noBreak : mark ≠ '\n' := by
      rintro rfl
      exact absurd markVisible (by decide)
    have ends := line.length_le_iff behindEq noBreak inCode
    rw [OptionsEndBefore, markEq, List.head?_cons, Option.some.injEq, ← ends,
      List.length_append]
    refine ⟨fun within => ?_, fun within => by omega⟩
    -- The delimiter is visible, so it does not stand among the blanks behind
    -- the options.
    apply Nat.le_of_not_lt
    intro longer
    have markAt : behind[middle.length]? = some mark := by simp [behindEq]
    rw [parts, List.getElem?_append_right within,
      List.getElem?_append_left (by omega)] at markAt
    have markBlank :=
      List.all_eq_true.mp blank mark (List.mem_of_getElem? markAt)
    exact absurd (markVisible.symm.trans markBlank) Bool.false_ne_true
  constructor
  · intro within
    rw [List.length_append] at within
    obtain ⟨middle, same⟩ : throughList lead named columns <+: front :=
      List.prefix_of_prefix_length_le ⟨behind, rfl⟩ ⟨_, split⟩ (by omega)
    rw [← same, List.length_append] at within
    exact ⟨middle, same.symm, (decided middle same.symm).mp (by omega)⟩
  · rintro ⟨middle, same, ends⟩
    rw [same, List.length_append, List.length_append]
    exact Nat.add_le_add_left ((decided middle same).mpr ends) _

namespace TableOptions

open TableOption (lacking)

variable {state : PipelineState} {info : TableInfo}

private theorem plain_insertion (words : info.Words) :
    ∀ character ∈ insertion info behind, character ∉ Lexer.openers := by
  have apart : Lexer.openers.all (fun opener =>
      !opener.isAlphanum && !([' ', '=', '_'].contains opener)) = true := by
        decide
  intro character member opener
  have one := List.all_eq_true.mp apart character opener
  rcases mem_insertion words member with letter | mark
  · simp [letter] at one
  · simp only [List.contains_eq_mem, mark] at one
    simp at one

private theorem inCodeAt_insertion
    (creates : CreatesTable text lead named columns behind create)
    (something : lacking (optionsOf behind) info ≠ []) :
    ({} : Lexer).inCodeAt (throughList lead named columns ++
      completed info behind)
        (throughList lead named columns ++ keptOptions behind).length =
      ({} : Lexer).inCodeAt (keptOptions behind)
        (keptOptions behind).length := by
  obtain ⟨again, createsAgain, -, -⟩ :=
    creates.congr_behind (completed info behind)
  obtain ⟨tail, begins⟩ := insertion_eq_space something
  rw [throughList_append, List.length_append, createsAgain.inCodeAt_behind,
    completed, begins, List.cons_append]
  exact Lexer.inCodeAt_before_blank (by decide) {} _ _ (Nat.le_refl _)

/-- The options that are inserted into a statement of a stream are code exactly
if the options in front of them, read on their own, end in code.  They stand in
front of the terminator exactly if this begins with a semicolon or the options
line ends in front of it. -/
theorem insertion_takes_effect_iff (chunks : List Text) (state : PipelineState)
    (words : state.catalog.Words) {earlier later : List StatementUnit}
    {atLineStart : Bool}
    (units : unitsIn chunks =
      earlier ++ ⟨.statement, atLineStart, text⟩ :: later)
    (changes : (apply state text).2 ≠ text) :
    let following := later.flatMap StatementUnit.text
    (∃ delimiter front tail, delimiter.Visible ∧
      CutAtDelimiter delimiter text following front tail) ∧
    ∃ lead named columns behind info create,
      Completes state text lead named columns behind info create ∧
      let place := throughList lead named columns ++ keptOptions behind
      let run := insertion info behind
      run ≠ [] ∧ text = place ++ afterOptions behind ∧
        (apply state text).2 = place ++ (run ++ afterOptions behind) ∧
        ((∀ index < run.length,
          (({} : Lexer).places (apply state text).2)[place.length + index]? =
            some .code) ↔
            ({} : Lexer).inCodeAt (keptOptions behind)
              (keptOptions behind).length = true) ∧
        ∀ delimiter front tail, delimiter.Visible →
          CutAtDelimiter delimiter text following front tail →
          (place.length ≤ front.length ↔
            ∃ middle, front = throughList lead named columns ++ middle ∧
              OptionsEndBefore delimiter middle behind) ∧
          (delimiter = .semicolon → place.length ≤ front.length) := by
  intro following
  have cuts : UnitsCut .semicolon (unitsIn chunks) := by
    have begins : (({} : StatementAssembler).withMore chunks.flatten).Tracks :=
      StatementAssembler.tracks_of_begin rfl rfl
    rw [unitsIn_eq]
    exact StatementAssembler.unitsCut_finish _ begins
  have semicolonVisible : Delimiter.semicolon.Visible := by
    intro character member
    obtain rfl := List.mem_singleton.mp member
    rfl
  refine ⟨cuts.statement_cut semicolonVisible units, ?_⟩
  obtain ⟨lead, named, columns, behind, info, create, completes, something⟩ :=
    exists_completes changes
  have creates := completes.creates
  obtain ⟨tail, begins⟩ := insertion_eq_space something
  have nonempty : insertion info behind ≠ [] := by
    rw [begins]
    exact List.cons_ne_nil ' ' tail
  refine ⟨lead, named, columns, behind, info, create, completes, ?_⟩
  intro place run
  have completedEq : throughList lead named columns ++ completed info behind =
      place ++ (run ++ afterOptions behind) :=
    (List.append_assoc ..).symm
  have resultEq : (apply state text).2 =
      place ++ (run ++ afterOptions behind) := by
    rw [apply_text completes, completedEq]
  refine ⟨nonempty, ?_, resultEq, ?_, ?_⟩
  · rw [List.append_assoc, keptOptions_append, throughList_append]
    exact creates.text_eq
  · rw [resultEq,
      Lexer.places_run_iff (plain_insertion (completes.words words)) nonempty,
      ← inCodeAt_insertion creates something, completedEq]
  · intro delimiter front tail visible cut
    refine ⟨before_delimiter_iff creates cut visible, ?_⟩
    rintro rfl
    obtain ⟨middle, same⟩ := cut.behind_list creates (by decide)
    exact (before_delimiter_iff creates cut visible).mpr ⟨middle,
      same, .inl rfl⟩

theorem insertion_takes_effect_iff_plain :
    let chunks := ["CREATE TABLE t (a".toList, " int) COMMENT='x' ;\n".toList]
    let text := "CREATE TABLE t (a int) COMMENT='x' ;\n".toList
    innoState.catalog.Words ∧ unitsIn chunks = [] ++ ⟨.statement, true, text⟩ ::
      [] ∧
      (apply innoState text).2 ≠ text ∧
      ∃ place run rest, run ≠ [] ∧ text = place ++ rest ∧
        (apply innoState text).2 = place ++ (run ++ rest) ∧
        ∀ index < run.length,
          (({} : Lexer).places (apply innoState text).2)[place.length +
            index]? = some .code := by
  intro chunks text
  have units : unitsIn chunks = [] ++ ⟨.statement, true, text⟩ :: [] := by
    decide +kernel
  have changes : (apply innoState text).2 ≠ text := by decide +kernel
  obtain ⟨-, lead, named, columns, behind, info, create, completes, something,
    split, result, code,
    -⟩ := insertion_takes_effect_iff chunks innoState words_innoState
      units changes
  have behindEq : behind = " COMMENT='x' ;\n".toList := by
    have known : ((Ddl.createTable? (splitStatement text).2).bind fun create =>
        behindColumns? create.rest) = some " COMMENT='x' ;\n".toList := by
          decide +kernel
    exact Option.some.inj (completes.creates.found_behind.symm.trans known)
  refine ⟨words_innoState, units, changes, _, _, _, something, split, result,
    code.mpr ?_⟩
  rw [behindEq]
  decide +kernel

/-- A line comment behind the column list. -/
def notedDump : Text := "CREATE TABLE t (a int) -- note\n;\n".toList

/-- The comment swallows what is inserted. -/
theorem insertion_swallowed :
    unitsOf notedDump = [⟨.statement, true, notedDump⟩] ∧
    innoState.catalog.Words ∧
      (apply innoState notedDump).2 =
        ("CREATE TABLE t (a int) -- note ENGINE=InnoDB " ++
        "DEFAULT CHARSET=utf8mb4 COLLATE=utf8mb4_bin\n;\n").toList ∧
      ((({} : Lexer).places (apply innoState notedDump).2).drop
        "CREATE TABLE t (a int) -- note".length).take
        " ENGINE=InnoDB DEFAULT CHARSET=utf8mb4 COLLATE=utf8mb4_bin".length =
        List.replicate 58 ⟨.lineComment, .lineComment⟩ :=
  ⟨by decide +kernel, words_innoState, by decide +kernel, by decide +kernel⟩

/-- A terminator that does not begin with a semicolon is taken for an option. -/
example : (apply innoState "CREATE TABLE t (a int)$$\n".toList).2 =
    ("CREATE TABLE t (a int)$$ ENGINE=InnoDB DEFAULT CHARSET=utf8mb4 " ++
      "COLLATE=utf8mb4_bin\n").toList := by
  decide +kernel

end TableOptions

end SqlDump
