import SqlDump.Proofs.Statement.First

/-!
# Directive lines

The line that puts a delimiter of semicolons and dollar signs in force is the
first unit of its stream, and the second unit is the first one with that
delimiter.
-/

namespace SqlDump

variable {delimiter : Delimiter}

/-- Every character of the delimiter is a semicolon or a dollar sign. -/
def MadeOfMarks (delimiter : Delimiter) : Prop :=
  ∀ character ∈ delimiter.text, character = ';' ∨ character = '$'

theorem MadeOfMarks.visible (made : MadeOfMarks delimiter) :
    ∀ character ∈ delimiter.text, isBlank character = false := by
  intro character member
  rcases made character member with rfl | rfl <;> decide

theorem mark_spec {mark : Char} (isMark : mark = ';' ∨ mark = '$') :
    Lexer.Separator mark ∧ isAsciiBlank mark = false ∧ mark ∉ Lexer.openers ∧
      mark.toLower ∉ directiveKeyword.map Char.toLower := by
  rcases isMark with rfl | rfl
  · exact ⟨⟨by decide, rfl⟩, rfl, by decide, by decide⟩
  · exact ⟨⟨by decide, rfl⟩, rfl, by decide, by decide⟩

theorem MadeOfMarks.plainDelimiter (made : MadeOfMarks delimiter)
    (assembler : StatementAssembler)
    (inForce : assembler.delimiter = delimiter) : assembler.PlainDelimiter := by
  have isMark : ∀ head ∈ assembler.delimiter.text.head?, head = ';' ∨
      head = '$' := by
    intro head first
    rw [inForce] at first
    exact made head (List.mem_of_mem_head? first)
  constructor
  · exact fun head first => (mark_spec (isMark head first)).2.1
  · exact fun head first => (mark_spec (isMark head first)).2.2.1
  · intro head first
    rcases isMark head first with rfl | rfl <;> decide

/-- The end of a line that the delimiter ends is code. -/
theorem MadeOfMarks.noOpener (made : MadeOfMarks delimiter) :
    ∀ character ∈ delimiter.text ++ ['\n'], character ∉ Lexer.openers := by
  intro character member
  rcases List.mem_append.mp member with mark | lineBreak
  · exact (mark_spec (made character mark)).2.2.1
  · rw [List.mem_singleton.mp lineBreak]
    decide

def directiveLine (delimiter : Delimiter) : Text :=
  directiveKeyword ++ ' ' :: (delimiter.text ++ ['\n'])

theorem MadeOfMarks.takeWhile_append (made : MadeOfMarks delimiter)
    (keeps : Char → Bool) (keepsMarks : keeps ';' = true ∧ keeps '$' = true)
    {stop : Char} (stops : keeps stop = false) (rest : Text) :
    (delimiter.text ++ stop :: rest).takeWhile keeps = delimiter.text := by
  have all : ∀ character ∈ delimiter.text, keeps character = true := by
    intro character member
    rcases made character member with rfl | rfl
    · exact keepsMarks.1
    · exact keepsMarks.2
  rw [List.takeWhile_append_of_pos all,
    List.takeWhile_cons_of_neg (by simp [stops]), List.append_nil]

theorem MadeOfMarks.ofArguments (made : MadeOfMarks delimiter) :
    Delimiter.ofArguments? (' ' :: (delimiter.text ++ ['\n'])) =
      some delimiter := by
  obtain ⟨word, nonempty⟩ := delimiter
  have reads :
      (word ++ ['\n']).takeWhile (fun character => !isBlank character) = word :=
    made.takeWhile_append _ ⟨rfl, rfl⟩ rfl []
  have visible := made.visible
  change ∀ character ∈ word, isBlank character = false at visible
  cases word with
  | nil => exact absurd rfl nonempty
  | cons mark more =>
      have start : Text.trimStart (' ' :: (mark :: more ++ ['\n'])) =
          mark :: more ++ ['\n'] := by
        rw [Text.trimStart, List.dropWhile_cons_of_pos rfl, List.cons_append,
          List.dropWhile_cons_of_neg (by simp [visible mark (.head more)])]
      simp only [Delimiter.ofArguments?, start, reads]

theorem drop_directiveLine (delimiter : Delimiter) (rest : Text) :
    (directiveLine delimiter ++ rest).drop directiveKeyword.length =
      ' ' :: (delimiter.text ++ '\n' :: rest) := by
  simp [directiveLine, directiveKeyword]

theorem directiveProbe_directiveLine (made : MadeOfMarks delimiter)
    (rest : Text) :
    (({} : StatementAssembler).withMore
      (directiveLine delimiter ++ rest)).directiveProbe true =
      .found (directiveLine delimiter).length := by
  have front : directiveLine delimiter ++ rest =
      (directiveKeyword ++ [' ']) ++ (delimiter.text ++ '\n' :: rest) := by
    simp [directiveLine]
  have line : ((directiveLine delimiter ++ rest).takeWhile (· != '\n')).length +
      1 =
      (directiveLine delimiter).length := by
    have keyword : ∀ character ∈ directiveKeyword ++ [' '],
        (character != '\n') = true :=
      List.all_eq_true.mp (by decide)
    have word : (delimiter.text ++ '\n' :: rest).takeWhile (· != '\n') =
        delimiter.text :=
      made.takeWhile_append _ ⟨rfl, rfl⟩ rfl rest
    rw [front, List.takeWhile_append_of_pos keyword, word]
    simp [directiveLine, Nat.add_assoc]
  have broken :
      ((directiveLine delimiter ++ rest).takeWhile (· != '\n')).length <
        (directiveLine delimiter ++ rest).length := by
    rw [List.length_append, ← line]
    omega
  have keyword :
      (directiveLine delimiter ++ rest).take directiveKeyword.length =
        directiveKeyword := by
    rw [front, List.append_assoc, List.take_left' rfl]
  have found : directiveLength true (directiveLine delimiter ++ rest) =
      .found (directiveLine delimiter).length := by
    unfold directiveLength
    rw [drop_directiveLine, keyword]
    dsimp only
    rw [if_pos (by decide), if_pos broken, line]
  exact found

theorem getLast?_directiveLine (delimiter : Delimiter) :
    (directiveLine delimiter).getLast? = some '\n' := by
  have concat : directiveLine delimiter =
      (directiveKeyword ++ ' ' :: delimiter.text) ++ ['\n'] := by
    simp [directiveLine]
  rw [concat, List.getLast?_concat]

/-- Behind the line the delimiter is in force, and nothing else has changed. -/
theorem takeDirective_directiveLine (made : MadeOfMarks delimiter) (rest : Text)
    (inForce : Delimiter) (statements : Nat) :
    (({ delimiter := inForce, statements := statements } :
        StatementAssembler).withMore
        (directiveLine delimiter ++ rest)).takeDirective
          (directiveLine delimiter).length =
      ({ delimiter := delimiter, ahead := rest, statements := statements },
        ⟨.directive, true, directiveLine delimiter⟩) := by
  have arguments : (directiveLine delimiter).drop directiveKeyword.length =
      ' ' :: (delimiter.text ++ ['\n']) := by
    have dropped := drop_directiveLine delimiter []
    rwa [List.append_nil] at dropped
  simp [StatementAssembler.takeDirective, StatementAssembler.cut,
    StatementAssembler.withMore, arguments, made.ofArguments,
    getLast?_directiveLine]

/-- The second unit behind the line is the first one with the delimiter in
force. -/
theorem unitsOf_directiveLine (made : MadeOfMarks delimiter) (rest : Text) :
    (unitsOf (directiveLine delimiter ++ rest)).head? =
        some ⟨.directive, true, directiveLine delimiter⟩ ∧
      ∀ unit, (unitsOf (directiveLine delimiter ++ rest))[1]? = some unit ∧
          unit.kind = .statement ↔
        ({ delimiter := delimiter, ahead := rest } :
          StatementAssembler).FirstStatement unit := by
  have moves :
      (({} : StatementAssembler).withMore
        (directiveLine delimiter ++ rest)).move? true =
      some ({ delimiter := delimiter, ahead := rest },
        some ⟨.directive, true, directiveLine delimiter⟩) := by
    rw [StatementAssembler.move?, directiveProbe_directiveLine made]
    dsimp only
    rw [takeDirective_directiveLine made rest .semicolon 0]
  have first := StatementAssembler.head?_run { delimiter := delimiter, ahead :=
    rest }
    (made.plainDelimiter _ rfl)
  obtain ⟨trailing, trails, unitsEq⟩ : ∃ trailing : List StatementUnit,
      (∀ unit ∈ trailing, unit.kind = .trailing) ∧
        unitsOf (directiveLine delimiter ++ rest) =
          (StatementAssembler.run true
            (({} : StatementAssembler).withMore
              (directiveLine delimiter ++ rest)) []).2 ++
              trailing := by
    refine ⟨_, fun unit member => ?_, rfl⟩
    split at member
    · exact absurd member List.not_mem_nil
    · rw [List.mem_singleton.mp member]
  rw [StatementAssembler.run_nil_of_some moves] at unitsEq
  generalize (StatementAssembler.run true
    ({ delimiter := delimiter, ahead := rest } : StatementAssembler) []).2 =
      units at first unitsEq
  rw [unitsEq]
  refine ⟨rfl, fun unit => ?_⟩
  rw [← first unit]
  cases units with
  | cons head tail => rfl
  | nil =>
      constructor
      · rintro ⟨second, statement⟩
        have member : unit ∈ trailing := List.mem_of_getElem? second
        rw [trails unit member] at statement
        exact absurd statement (by decide)
      · rintro ⟨none, -⟩
        exact absurd none (by simp)

end SqlDump
