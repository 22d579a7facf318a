import SqlDump.Proofs.Ddl.Naming
import SqlDump.Proofs.Guard.Lines
import SqlDump.Proofs.Pipeline.EditPlaces

/-!
# Exports that differ in volatile values

Two exports of one schema may differ in the values of counters and in the times
of the export.  None of these values decides where the statement begins, what it
creates, or which other values are edited.  So they can be changed one after the
other, and each change leaves the result as it is.
-/

namespace SqlDump

namespace Volatile

variable {front label value time other behind between shown original varied
  later : Text}

/-- A counter in the code of a `CREATE TABLE` statement. -/
structure CounterIn (front label value behind : Text) : Prop where
  counter : Counter label value behind
  begins : endsWord front.getLast? = true
  inCode : ({} : Lexer).inCodeAt (front ++ (label ++ (value ++ behind)))
    front.length = true
  creates : Ddl.isCreateTable
    (splitStatement (front ++ (label ++ (value ++ behind)))).2 = true
  inStatement :
    (splitStatement (front ++ (label ++ (value ++ behind)))).1.length ≤
      front.length

/-- A time behind a comment that begins in code at the start of a line, in front
of the statement. -/
structure TimeIn (front time behind : Text) : Prop where
  onLine : ∀ character ∈ time, staysOnLine character = true
  ends : ∀ next ∈ behind.head?, staysOnLine next = false
  begins : endsLine front = true
  inCode : ({} : Lexer).inCodeAt
    (front ++ (completedComment ++ (timeStart ++ (time ++ behind))))
      front.length = true
  inLead : front.length <
    (splitStatement
      (front ++ (completedComment ++ (timeStart ++ (time ++ behind))))).1.length

/-- Between `front` and `behind`, `original` and `varied` differ in a volatile
value only, and without it they read `shown`. -/
inductive Varies (front : Text) : Text → Text → Text → Text → Prop where
  | counter {label value other behind : Text}
      (counterIn : CounterIn front label value behind)
      (number : IsNumber other) :
      Varies front (label ++ value) (label ++ other) behind zeroCounter
  | time {time other behind : Text} (timeIn : TimeIn front time behind)
      (onLine : ∀ character ∈ other, staysOnLine character = true) :
      Varies front (completedComment ++ (timeStart ++ time))
        (completedComment ++ (timeStart ++ other)) behind completedComment

/-- Behind `front`, what the pieces are taken from and what becomes of them
differ in volatile values only. -/
inductive Alike : Text → List Piece → Prop where
  | nil (front : Text) : Alike front []
  | copied {front text : Text} {later : List Piece}
      (rest : Alike (front ++ text) later) :
      Alike front (.copied text :: later)
  | replaced {front original varied shown : Text} {later : List Piece}
      (varies : Varies front original varied (originals later) shown)
      (rest : Alike (front ++ original) later) :
      Alike front (.replaced original varied :: later)

theorem CounterIn.split (counterIn : CounterIn front label value behind) :
    ∃ lead named, front = lead ++ named ∧ named ≠ [] ∧
      ∀ rest, splitStatement (front ++ (label ++ rest)) =
        (lead, named ++ (label ++ rest)) ∧
        Ddl.isCreateTable (named ++ (label ++ rest)) = true := by
  obtain ⟨⟨isLabel, -, -⟩, -, -, creates, inStatement⟩ := counterIn
  have parts := (splitStatement_spec (front ++ (label ++ (value ++ behind)))).1
  generalize splitEq : splitStatement (front ++ (label ++ (value ++ behind))) =
    split at *
  obtain ⟨lead, body⟩ := split
  obtain ⟨named, rfl⟩ : lead <+: front :=
    List.prefix_of_prefix_length_le ⟨body,
      parts.symm⟩ (List.prefix_append _ _) inStatement
  rw [List.append_assoc] at parts
  obtain rfl := List.append_cancel_left parts
  obtain ⟨letter, others, labelEq, isFirst, -⟩ := isLabel.letters
  obtain ⟨token, tail, bodyEq, isToken⟩ := Ddl.isCreateTable_begins creates
  cases named with
  | nil =>
      -- The word that creates begins with another letter than a counter.
      rw [List.nil_append, labelEq] at bodyEq
      obtain ⟨rfl, -⟩ := List.cons.inj bodyEq
      rcases isToken with rfl | rfl <;> exact absurd isFirst (by decide)
  | cons head named =>
      obtain ⟨rfl, -⟩ := List.cons.inj bodyEq
      refine ⟨lead, head :: named, rfl, List.cons_ne_nil _ _,
        fun rest => ⟨?_, ?_⟩⟩
      · rw [List.append_assoc] at splitEq ⊢
        refine splitStatement_token (beginsToken_of_isAlpha ?_) splitEq _
        rcases isToken with rfl | rfl <;> rfl
      · obtain ⟨word, gap, laterGap, rfl, -⟩ := isLabel
        have inFront (rest : Text) :
            head :: named ++ (word ++ (gap ++ '=' :: laterGap) ++ rest) =
              (head :: named ++ (word ++ gap)) ++ '=' ::
              (laterGap ++ rest) := by simp
        rw [inFront] at creates ⊢
        rw [Ddl.isCreateTable_before, creates]

private theorem splitStatement_of_body {lead body : Text}
    (same : (splitStatement (lead ++ body)).2 = body) :
    splitStatement (lead ++ body) = (lead, body) := by
  have parts := (splitStatement_spec (lead ++ body)).1
  rw [same] at parts
  exact Prod.ext (List.append_cancel_right parts).symm same

/-- The comment with a time, as the line comment that it is. -/
theorem timeComment_eq (time line rest : Text) :
    completedComment ++ (timeStart ++ (time ++ (line ++ rest))) =
      '-' :: '-' :: ' ' :: (completedWords ++ (timeStart ++ time) ++ line) ++
      rest := by
  rw [completedComment_eq]
  simp

theorem TimeIn.split (timeIn : TimeIn front time behind) :
    ∃ line body, behind = line ++ body ∧ ∀ other : Text,
      (∀ character ∈ other, staysOnLine character = true) →
        splitStatement
          (front ++ (completedComment ++ (timeStart ++ (other ++ behind)))) =
          (front ++ (completedComment ++ (timeStart ++ (other ++ line))),
            body) := by
  obtain ⟨-, -, begins, inCode, inLead⟩ := timeIn
  have parts := congrArg List.length (splitStatement_spec
    (front ++ (completedComment ++ (timeStart ++ (time ++ behind))))).1
  have inLead : (splitStatement
      (front ++
        (completedComment ++ (timeStart ++ (time ++ behind))))).2.length ≤
        (completedComment ++ (timeStart ++ (time ++ behind))).length := by
    simp only [List.length_append] at parts ⊢
    omega
  have found (other : Text) := splitStatement_endsLine begins inCode inLead
    (completedComment ++ (timeStart ++ (other ++ behind)))
  have noBreak {line : Text} (lineEnds : '\n' ∉ line) {other : Text}
      (onLine : ∀ character ∈ other, staysOnLine character = true) :
      '\n' ∉ completedWords ++ (timeStart ++ other) ++ line := by
    rw [List.mem_append, not_or]
    exact ⟨not_mem_of_staysOnLine onLine, lineEnds⟩
  have splits (line body other : Text) (split : behind = line ++ body)
      (same :
        (splitStatement
          (completedComment ++ (timeStart ++ (other ++ behind)))).2 = body) :
      splitStatement
        (front ++ (completedComment ++ (timeStart ++ (other ++ behind)))) =
        (front ++ (completedComment ++ (timeStart ++ (other ++ line))),
          body) := by
    have parts :
        front ++ (completedComment ++ (timeStart ++ (other ++ behind))) =
          front ++ (completedComment ++ (timeStart ++ (other ++ line))) ++
          body := by simp [split]
    rw [← found other, parts] at same
    rw [parts]
    exact splitStatement_of_body same
  by_cases breaks : '\n' ∈ behind
  · obtain ⟨line, rest, rfl, lineEnds⟩ := List.eq_append_cons_of_mem breaks
    have parts := (splitStatement_spec rest).1
    refine ⟨line ++ '\n' :: (splitStatement rest).1, (splitStatement rest).2,
      ?_, fun other onLine => splits _ _ other ?_ ?_⟩
    · rw [List.append_assoc, List.cons_append, ← parts]
    · rw [List.append_assoc, List.cons_append, ← parts]
    · rw [timeComment_eq]
      exact (splitStatement_comment (noBreak lineEnds onLine)).1 rest
  · refine ⟨behind, [], (List.append_nil _).symm, fun other onLine =>
      splits _ _ other (List.append_nil _).symm ?_⟩
    have whole := timeComment_eq other behind []
    rw [List.append_nil, List.append_nil] at whole
    rw [whole]
    exact (splitStatement_comment (noBreak breaks onLine)).2

/-- A value is edited on its own, and the edits in front of it and behind it do
not depend on it. -/
def EditedAs (front original varied behind shown : Text) : Prop :=
  ∃ first middle variedMiddle second,
    edits (front ++ (original ++ behind)) = first ++ (middle ++ second) ∧
      edits (front ++ (varied ++ behind)) = first ++ (variedMiddle ++ second) ∧
        originals first = front ∧ originals middle = original ∧
        results middle = shown ∧
          results variedMiddle = shown

theorem CounterIn.editedAs (counterIn : CounterIn front label value behind)
    (number : IsNumber other) :
    EditedAs front (label ++ value) (label ++ other) behind zeroCounter := by
  obtain ⟨lead, named, rfl, nonempty, splits⟩ := counterIn.split
  obtain ⟨counter, begins, inCode, creates, -⟩ := counterIn
  have atCounter : ({} : Lexer).inCodeAt (named ++ (label ++ (value ++ behind)))
      named.length =
      true := by
    have shifted := inCodeAt_statement creates named.length
    rw [(splits _).1, ← List.length_append, inCode] at shifted
    exact shifted.symm
  have endsWordAt : endsWord (named.getLast?.or none) = true := by
    rw [List.getLast?_append, List.getLast?_eq_some_getLast nonempty,
      Option.some_or] at begins
    rwa [List.getLast?_eq_some_getLast nonempty, Option.some_or]
  obtain ⟨pieces, after, joins, edited⟩ :=
    counterEdits_at counter.label endsWordAt atCounter
  have whole (number : Text) (counter : Counter label number behind) :
      edits (lead ++ named ++ (label ++ number ++ behind)) =
        timeEdits true lead ++ pieces ++
          ([.replaced (label ++ number) zeroCounter] ++ counterEdits after
            (some '0') behind) := by
    rw [edits, List.append_assoc label, (splits _).1]
    dsimp only
    rw [if_pos (splits _).2, edited number behind counter, List.append_assoc]
    rfl
  exact ⟨_, _, _, _, whole value counter,
    whole other ⟨counter.label, number, counter.ends⟩,
    by rw [originals_append, originals_timeEdits, joins], List.append_nil _,
    rfl, rfl⟩

private theorem takeWhile_time {line : Text}
    (onLine : ∀ character ∈ time, staysOnLine character = true)
    (ends : ∀ next ∈ line.head?, staysOnLine next = false) :
    (time ++ line).takeWhile staysOnLine = time ∧
      (time ++ line).dropWhile staysOnLine = line := by
  rw [List.takeWhile_append_of_pos onLine, List.dropWhile_append_of_pos onLine]
  cases line with
  | nil => exact ⟨List.append_nil _, rfl⟩
  | cons next line => simp [ends next rfl]

theorem TimeIn.editedAs (timeIn : TimeIn front time behind)
    (onLine : ∀ character ∈ other, staysOnLine character = true) :
    EditedAs front (completedComment ++ (timeStart ++ time))
      (completedComment ++ (timeStart ++ other)) behind completedComment := by
  obtain ⟨line, body, rfl, splits⟩ := timeIn.split
  have stops : ∀ next ∈ line.head?, staysOnLine next = false := by
    intro next here
    apply timeIn.ends
    rw [List.head?_append, here]
    rfl
  have begins : beginsLineBehind true front = true :=
    endsLine_eq front ▸ timeIn.begins
  have whole (time : Text) (onLine : ∀ character ∈ time, staysOnLine character =
      true) :
      edits
        (front ++ (completedComment ++ (timeStart ++ time) ++ (line ++ body))) =
        timeEdits true front ++
          ([.copied completedComment, .replaced (timeStart ++ time) []] ++
            (timeEdits false line ++ (if Ddl.isCreateTable body then
              counterEdits {} none body else [.copied body]))) := by
    have taken := takeWhile_time onLine stops
    rw [edits, List.append_assoc completedComment, List.append_assoc timeStart,
      splits time onLine]
    dsimp only
    rw [timeEdits_at begins, taken.1, taken.2]
    simp
  exact ⟨_, _, _, _, whole time timeIn.onLine, whole other onLine,
    originals_timeEdits _ _,
    by simp [originals, Piece.original], by simp [results, Piece.result],
    by simp [results, Piece.result]⟩

theorem Varies.editedAs (varies : Varies front original varied behind shown) :
    EditedAs front original varied behind shown := by
  cases varies with
  | counter counterIn number => exact counterIn.editedAs number
  | time timeIn onLine => exact timeIn.editedAs onLine

theorem Varies.results_eq (varies : Varies front original varied behind shown) :
    results (edits (front ++ (original ++ behind))) =
      results (edits (front ++ (varied ++ behind))) := by
  obtain ⟨first, middle, variedMiddle, second, edited, variedEdited, -, -,
    shownEq, variedEq⟩ :=
    varies.editedAs
  rw [edited, variedEdited]
  simp only [results_append, shownEq, variedEq]

private theorem inCodeAt_behind_plains {plain rest : Text}
    (inCode : ({} : Lexer).inCodeAt (front ++ (plain ++ rest)) front.length =
        true) (noOpener : ∀ character ∈ plain, character ∉ Lexer.openers)
    (more : Nat) :
    ({} : Lexer).inCodeAt (front ++ (plain ++ rest))
      (front.length + (plain.length + more)) =
      ({} : Lexer).inCodeAt rest more := by
  rw [Lexer.inCodeAt_add _ Lexer.proper_start inCode, List.drop_left,
    Lexer.inCodeAt_plains _ Lexer.atTopLevel_start noOpener]

theorem CounterIn.inCodeAt (counterIn : CounterIn front label value behind)
    (rest : Text) :
    ({} : Lexer).inCodeAt (front ++ (label ++ rest)) front.length = true := by
  obtain ⟨letter, others, rfl, isFirst, -⟩ := counterIn.counter.label.letters
  rw [← counterIn.inCode]
  exact Lexer.inCodeAt_before_separator (separator_of_isFirstLetter isFirst) _ _
    _ _ (Nat.le_refl _)

theorem CounterIn.inCodeAt_number
    (counterIn : CounterIn front label value behind) (number : IsNumber other)
    (rest : Text) (more : Nat) :
    ({} : Lexer).inCodeAt (front ++ (label ++ (other ++ rest)))
      (front.length + ((label ++ other).length + more)) =
        ({} : Lexer).inCodeAt rest more := by
  have plain : ∀ character ∈ label ++ other, character ∉ Lexer.openers := by
    intro character member
    rcases List.mem_append.mp member with inLabel | inValue
    · exact counterIn.counter.label.plain character inLabel
    · exact number.plain character inValue
  rw [← List.append_assoc label]
  apply inCodeAt_behind_plains _ plain
  rw [List.append_assoc]
  exact counterIn.inCodeAt _

theorem TimeIn.inCodeAt (timeIn : TimeIn front time behind) (rest : Text) :
    ({} : Lexer).inCodeAt (front ++ rest) front.length = true :=
  (inCodeAt_endsLine timeIn.begins _ _).trans timeIn.inCode

/-- Behind the line of a time the lexer goes on as if the text began there. -/
theorem TimeIn.inCodeAt_line {line : Text} (timeIn : TimeIn front time behind)
    (onLine : ∀ character ∈ other, staysOnLine character = true)
    (noBreak : '\n' ∉ line) (rest : Text) (more : Nat) :
    ({} : Lexer).inCodeAt
        (front ++
          (completedComment ++
          (timeStart ++ (other ++ (line ++ '\n' :: rest)))))
        (front.length +
          ((completedComment ++ (timeStart ++ (other ++ line))).length + 1 +
          more)) =
      ({} : Lexer).inCodeAt rest more := by
  have lineEnds : '\n' ∉ completedWords ++ (timeStart ++ other) ++ line := by
    rw [List.mem_append, not_or]
    exact ⟨not_mem_of_staysOnLine onLine, noBreak⟩
  obtain ⟨steps, reads⟩ := Lexer.reads_dashes lineEnds rest
  have lengthEq := congrArg List.length (timeComment_eq other line ['\n'])
  have parts :
      '-' :: '-' :: ' ' :: (completedWords ++ (timeStart ++ other) ++ line) ++
          '\n' :: rest =
        ('-' :: '-' :: ' ' ::
          (completedWords ++ (timeStart ++ other) ++ line) ++ ['\n']) ++
          rest := by simp
  rw [parts] at reads
  have shifted := inCodeAt_behind reads more
  rw [← parts, ← timeComment_eq, ← lengthEq] at shifted
  rw [Lexer.inCodeAt_add _ Lexer.proper_start (timeIn.inCodeAt _),
    List.drop_left, ← shifted]
  simp [Nat.add_assoc]

theorem TimeIn.between_ne_nil {next : Char} {rest : Text}
    (timeIn : TimeIn front time (between ++ next :: rest))
    (onLine : staysOnLine next = true) :
    between ≠ [] := by
  rintro rfl
  exact absurd (onLine.symm.trans (timeIn.ends next rfl)) (by decide)

theorem getLast?_behind (nonempty : between ≠ []) (front original : Text) :
    (front ++ (original ++ between)).getLast? = between.getLast? := by
  rw [← List.append_assoc]
  exact List.getLast?_append_of_ne_nil _ nonempty

variable {laterLabel laterValue laterTime : Text}

theorem CounterIn.counterIn
    (first : CounterIn front label value
        (between ++ (laterLabel ++ (laterValue ++ behind))))
    (second : CounterIn (front ++ (label ++ value ++ between)) laterLabel
        laterValue behind) (number : IsNumber other) :
    CounterIn (front ++ (label ++ other ++ between)) laterLabel laterValue
      behind := by
  have texts (number rest : Text) : front ++ (label ++ number ++ between) ++
      rest =
      front ++ (label ++ (number ++ (between ++ rest))) := by simp
  have lengths (number : Text) :
      (front ++ (label ++ number ++ between)).length =
        front.length + ((label ++ number).length + between.length) := by
        simp [Nat.add_assoc]
  have apart : between ≠ [] := by
    rintro rfl
    have begins := second.begins
    have joined : endsWord ((front ++ label ++ value).getLast?.or none) =
        false :=
      endsWord_of_isNumber first.counter.number _
    rw [Option.or_none] at joined
    rw [List.append_nil, ← List.append_assoc, joined] at begins
    exact absurd begins (by decide)
  obtain ⟨lead, named, frontEq, -, splits⟩ := first.split
  refine ⟨second.counter, ?_, ?_, ?_, ?_⟩
  · have begins := second.begins
    rwa [getLast?_behind apart] at begins ⊢
  · have inCode := second.inCode
    rw [texts, lengths, first.inCodeAt_number first.counter.number] at inCode
    rw [texts, lengths, first.inCodeAt_number number]
    exact inCode
  · rw [texts, (splits _).1]
    exact (splits _).2
  · rw [texts, (splits _).1, frontEq]
    simp only [List.length_append]
    omega

theorem CounterIn.not_timeIn
    (counterIn : CounterIn front label value
      (between ++ (completedComment ++ (timeStart ++ (time ++ behind))))) :
    ¬TimeIn (front ++ (label ++ value ++ between)) time behind := by
  intro timeIn
  have inLead := timeIn.inLead
  have inStatement := counterIn.inStatement
  simp only [List.append_assoc, List.length_append] at inLead inStatement
  omega

private theorem staysOnLine_of_isFirstLetter {letter : Char}
    (first : isFirstLetter letter = true) :
    staysOnLine letter = true := by
  rw [staysOnLine, Bool.and_eq_true, bne_iff_ne, bne_iff_ne]
  constructor <;>
  · rintro rfl
    exact absurd first (by decide)

theorem TimeIn.counterIn
    (first :
      TimeIn front time (between ++ (laterLabel ++ (laterValue ++ behind))))
    (second :
      CounterIn (front ++ (completedComment ++ (timeStart ++ time) ++ between))
        laterLabel laterValue behind)
    (onLine : ∀ character ∈ other, staysOnLine character = true) :
    CounterIn (front ++ (completedComment ++ (timeStart ++ other) ++ between))
      laterLabel
      laterValue behind := by
  have texts (time rest : Text) :
      front ++ (completedComment ++ (timeStart ++ time) ++ between) ++ rest =
        front ++
        (completedComment ++ (timeStart ++ (time ++ (between ++ rest)))) := by
          simp
  have apart : between ≠ [] := by
    obtain ⟨letter, others, rfl, isFirst, -⟩ := second.counter.label.letters
    exact first.between_ne_nil (staysOnLine_of_isFirstLetter isFirst)
  obtain ⟨line, body, behindEq, splits⟩ := first.split
  have creates := second.creates
  have inStatement := second.inStatement
  rw [texts, splits time first.onLine] at creates inStatement
  dsimp only at creates inStatement
  obtain ⟨more, rfl⟩ : line <+: between := by
    apply List.prefix_of_prefix_length_le ⟨body,
      behindEq.symm⟩ (List.prefix_append _ _)
    simp only [List.length_append] at inStatement
    omega
  rw [List.append_assoc line] at behindEq
  obtain rfl := List.append_cancel_left behindEq
  have lexed {time : Text} (onLine : ∀ character ∈ time, staysOnLine character =
      true) :
      ({} : Lexer).inCodeAt
          (front ++
            (completedComment ++ (timeStart ++ time) ++ (line ++ more)) ++
            (laterLabel ++ (laterValue ++ behind)))
          (front ++ (completedComment ++ (timeStart ++ time) ++
            (line ++ more))).length =
        ({} : Lexer).inCodeAt (more ++ (laterLabel ++ (laterValue ++ behind)))
          more.length := by
    have splitEq := splits time onLine
    rw [← texts] at splitEq
    have shifted := inCodeAt_statement
      ((congrArg (fun split => Ddl.isCreateTable split.2) splitEq).trans
        creates) more.length
    rw [splitEq] at shifted
    rw [← shifted]
    simp [Nat.add_assoc]
  refine ⟨second.counter, ?_, ?_, ?_, ?_⟩
  · have begins := second.begins
    rwa [getLast?_behind apart] at begins ⊢
  · rw [lexed onLine, ← lexed first.onLine]
    exact second.inCode
  · rw [texts, splits other onLine]
    exact creates
  · rw [texts, splits other onLine]
    simp only [List.length_append]
    omega

theorem TimeIn.timeIn
    (first : TimeIn front time
        (between ++ (completedComment ++ (timeStart ++ (laterTime ++ behind)))))
    (second :
      TimeIn (front ++ (completedComment ++ (timeStart ++ time) ++ between))
        laterTime behind)
    (onLine : ∀ character ∈ other, staysOnLine character = true) :
    TimeIn (front ++ (completedComment ++ (timeStart ++ other) ++ between))
      laterTime
      behind := by
  have texts (time rest : Text) :
      front ++ (completedComment ++ (timeStart ++ time) ++ between) ++ rest =
        front ++
        (completedComment ++ (timeStart ++ (time ++ (between ++ rest)))) := by
          simp
  have dash : staysOnLine '-' = true := rfl
  have apart : between ≠ [] := first.between_ne_nil dash
  have begins : endsLine between = true := by
    have begins := second.begins
    rwa [endsLine, getLast?_behind apart] at begins
  have breaks : '\n' ∈ between := by
    obtain ⟨line, rfl⟩ := (endsLine_iff.mp begins).resolve_left apart
    exact List.mem_append_right line List.mem_cons_self
  obtain ⟨start, rest, rfl, noBreak⟩ := List.eq_append_cons_of_mem breaks
  obtain ⟨line, body, behindEq, splits⟩ := first.split
  have lexed {time : Text} (onLine : ∀ character ∈ time, staysOnLine character =
      true) :
      ({} : Lexer).inCodeAt
          (front ++ (completedComment ++ (timeStart ++ time) ++
            (start ++ '\n' :: rest)) ++
            (completedComment ++ (timeStart ++ (laterTime ++ behind))))
          (front ++ (completedComment ++ (timeStart ++ time) ++
            (start ++ '\n' :: rest))).length =
        ({} : Lexer).inCodeAt
          (rest ++ (completedComment ++ (timeStart ++ (laterTime ++ behind))))
            rest.length := by
    have shifted := first.inCodeAt_line onLine noBreak
      (rest ++ (completedComment ++ (timeStart ++ (laterTime ++ behind))))
        rest.length
    rw [← shifted]
    simp [Nat.add_assoc, Nat.add_comm 1]
  have inLead := second.inLead
  rw [texts, splits time first.onLine] at inLead
  dsimp only at inLead
  refine ⟨second.onLine, second.ends, ?_, ?_, ?_⟩
  · rwa [endsLine, getLast?_behind apart]
  · rw [lexed onLine, ← lexed first.onLine]
    exact second.inCode
  · rw [texts, splits other onLine]
    simp only [List.length_append] at inLead ⊢
    omega

/-- A value stays what it is if one in front of it is changed. -/
theorem Varies.following {laterVaried laterShown : Text}
    (first : Varies front original varied (between ++ (later ++ behind)) shown)
    (second : Varies (front ++ (original ++ between)) later laterVaried behind
        laterShown) :
    Varies (front ++ (varied ++ between)) later laterVaried behind
      laterShown := by
  cases second with
  | counter second number =>
      rw [List.append_assoc] at first
      generalize restEq : between ++ (_ ++ (_ ++ behind)) = rest at first
      cases first with
      | counter first otherNumber =>
          subst restEq
          exact .counter (first.counterIn second otherNumber) number
      | time first onLine =>
          subst restEq
          exact .counter (first.counterIn second onLine) number
  | time second laterOnLine =>
      rw [List.append_assoc, List.append_assoc] at first
      generalize restEq : between ++ (_ ++ (_ ++ (_ ++ behind))) = rest at first
      cases first with
      | counter first otherNumber =>
          subst restEq
          exact absurd second first.not_timeIn
      | time first onLine =>
          subst restEq
          exact .time (first.timeIn second onLine) laterOnLine

theorem Alike.following {pieces : List Piece}
    (varies : Varies front original varied (between ++ originals pieces) shown)
    (alike : Alike (front ++ (original ++ between)) pieces) :
    Alike (front ++ (varied ++ between)) pieces := by
  induction pieces generalizing between with
  | nil => exact .nil _
  | cons piece pieces ih =>
      cases alike with
      | @copied _ text _ rest =>
          rw [originals_cons, Piece.original, ← List.append_assoc] at varies
          rw [List.append_assoc, List.append_assoc original] at rest
          apply Alike.copied
          rw [List.append_assoc, List.append_assoc varied]
          exact ih varies rest
      | @replaced _ laterOriginal laterVaried laterShown _ laterVaries rest =>
          rw [originals_cons, Piece.original] at varies
          apply Alike.replaced (varies.following laterVaries)
          rw [← List.append_assoc] at varies
          rw [List.append_assoc, List.append_assoc original] at rest
          rw [List.append_assoc, List.append_assoc varied]
          exact ih varies rest

theorem Alike.results_eq {pieces : List Piece} (alike : Alike front pieces) :
    results (edits (front ++ originals pieces)) =
      results (edits (front ++ results pieces)) := by
  induction pieces generalizing front with
  | nil => rfl
  | cons piece pieces ih =>
      cases alike with
      | @copied _ text _ rest =>
          have same := ih rest
          rwa [List.append_assoc, List.append_assoc] at same
      | @replaced _ original varied shown _ varies rest =>
          have changed : Alike (front ++ varied) pieces := by
            rw [← List.append_nil original] at rest
            rw [← List.append_nil varied]
            exact Alike.following varies rest
          have same := ih changed
          rw [List.append_assoc, List.append_assoc] at same
          exact varies.results_eq.trans same

theorem Alike.varies {pieces earlier later : List Piece}
    (alike : Alike front pieces)
    (split : pieces = earlier ++ .replaced original varied :: later) :
    ∃ shown, Varies (front ++ originals earlier) original varied
      (originals later) shown := by
  induction earlier generalizing front pieces with
  | nil =>
      subst split
      cases alike with
      | replaced varies rest => exact ⟨_, (List.append_nil front).symm ▸ varies⟩
  | cons piece earlier ih =>
      subst split
      rw [originals_cons, ← List.append_assoc]
      cases alike with
      | copied rest => exact ih rest rfl
      | replaced varies rest => exact ih rest rfl

/-- Two units that differ in the values of counters and in times only leave as
the same text, in which each of these counters is zero and each of these
comments has lost its time. -/
theorem apply_hides_values (state other : PipelineState) {pieces : List Piece}
    (alike : Alike [] pieces) :
    (apply state (originals pieces)).2 = (apply other (results pieces)).2 ∧
      results (edits (originals pieces)) = (apply state (originals pieces)).2 ∧
      ∀ earlier original varied later,
        pieces = earlier ++ .replaced original varied :: later →
        ∃ shown first middle second,
          Varies (originals earlier) original varied (originals later) shown ∧
            edits (originals pieces) = first ++ (middle ++ second) ∧
              originals first = originals earlier ∧
              originals middle = original ∧
                results middle = shown := by
  have same := alike.results_eq
  simp only [List.nil_append] at same
  refine ⟨?_, results_edits state (originals pieces),
    fun earlier original varied later split => ?_⟩
  · rw [← results_edits state, ← results_edits other, same]
  · obtain ⟨shown, varies⟩ := alike.varies split
    rw [List.nil_append] at varies
    obtain ⟨first, middle, -, second, edited, -, firstEq, middleEq, shownEq,
      -⟩ := varies.editedAs
    refine ⟨shown, first, middle, second, varies, ?_, firstEq, middleEq,
      shownEq⟩
    rw [split, originals_append, originals_cons, Piece.original, edited]

/-- The same dump, exported again after some rows were inserted. -/
def exportedAgain : List Piece :=
  [.replaced (completedComment ++ (timeStart ++ "2024-01-02".toList))
      (completedComment ++ (timeStart ++ "2024-01-02 10:30:00".toList)),
    .copied "\nCREATE TABLE t (a int) ".toList,
    .replaced ("AUTO_INCREMENT=".toList ++ "5".toList)
      ("AUTO_INCREMENT=".toList ++ "17".toList),
    .copied ";\n".toList]

theorem apply_exportedAgain :
    Alike [] exportedAgain ∧
      (apply {} (originals exportedAgain)).2 =
        (apply {} (results exportedAgain)).2 ∧
      (apply {} (originals exportedAgain)).2 =
        ("-- Dump completed\n" ++
          "CREATE TABLE t (a int) AUTO_INCREMENT=0;\n").toList := by
  have timeIn :
      TimeIn [] "2024-01-02".toList (originals (exportedAgain.drop 1)) :=
    ⟨List.all_eq_true.mp (by decide), by rintro _ ⟨⟩; rfl,
      rfl, by decide +kernel, by decide +kernel⟩
  have label : CounterLabel "AUTO_INCREMENT=".toList :=
    ⟨"AUTO_INCREMENT".toList, [], [], by decide, rfl, rfl, rfl⟩
  have counterIn :
      CounterIn (originals (exportedAgain.take 2)) "AUTO_INCREMENT=".toList
      "5".toList (originals (exportedAgain.drop 3)) :=
    ⟨⟨label,
      ⟨by decide, List.all_eq_true.mp (by decide)⟩, by rintro _ ⟨⟩; decide⟩,
      by decide, by decide +kernel, by decide +kernel, by decide +kernel⟩
  have alike : Alike [] exportedAgain :=
    .replaced (.time timeIn (List.all_eq_true.mp (by decide)))
      (.copied (.replaced
      (.counter counterIn ⟨by decide,
        List.all_eq_true.mp (by decide)⟩) (.copied (.nil _))))
  exact ⟨alike, (apply_hides_values {} {} alike).1, by decide +kernel⟩

end Volatile

end SqlDump
