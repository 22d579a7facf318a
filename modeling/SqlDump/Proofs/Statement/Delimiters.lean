import SqlDump.Proofs.Lexer.Boundary
import SqlDump.Proofs.Lexer.Token
import SqlDump.Proofs.Statement.Chunks
import SqlDump.Proofs.Statement.First

/-!
# Units are cut at their delimiters

Lexed from scratch, a statement holds the delimiter in force at one step
boundary in code, behind which only its line ends; a remainder holds it at none,
and a directive is a line that begins with its keyword.  The lexer that runs
over the stream is, at every place of a unit, in the state of a lexer that began
with the unit.
-/

namespace SqlDump

/-- Spaces and tabs and at most one line break. -/
def EndsLineBehind (tail : Text) : Prop :=
  ∃ padding lineBreak, tail = padding ++ lineBreak ∧
    (∀ character ∈ padding, isPadding character = true) ∧
    (lineBreak = [] ∨ lineBreak = ['\n'] ∨ lineBreak = ['\r', '\n'])

/-- A statement is cut at the delimiter.  Whether its unit is lexed alone or
with the text that follows it in the stream, the delimiter stands behind `front`
at a boundary in code for the first time, and the characters in front of it have
the same places. -/
structure CutAtDelimiter (delimiter : Delimiter) (unit following : Text)
    (front tail : Text) : Prop where
  text : unit = front ++ (delimiter.text ++ tail)
  alone : ({} : Lexer).FirstBoundary delimiter.text front tail
  inStream : ({} : Lexer).FirstBoundary delimiter.text front (tail ++ following)
  samePlaces : (({} : Lexer).places unit).take front.length =
    (({} : Lexer).places (unit ++ following)).take front.length
  ends : EndsLineBehind tail

/-- A directive: behind trivia that end in code, its keyword, a space or tab,
and the rest of the line. -/
structure DirectiveLine (unit following : Text) (lead keyword : Text)
    (padding : Char) (arguments lineBreak : Text) : Prop where
  text : unit = lead ++ (keyword ++ padding :: (arguments ++ lineBreak))
  trivia : Trivia lead
  boundary : ({} : Lexer).CodeBoundary lead
    (keyword ++ padding :: (arguments ++ lineBreak) ++ following)
  keyword : Text.sameAsciiWord directiveKeyword keyword = true
  padding : isPadding padding = true
  oneLine : '\n' ∉ arguments
  ends : lineBreak = ['\n'] ∨ lineBreak = [] ∧ following = []

/-- The first word of the arguments is the next delimiter; without a word the
old one stays. -/
inductive SetsDelimiter (delimiter : Delimiter) : Text → Delimiter → Prop where
  | word {blanks rest : Text} (next : Delimiter)
      (blank : ∀ character ∈ blanks, isBlank character = true)
      (visible : ∀ character ∈ next.text, isBlank character = false)
      (ends : ∀ head ∈ rest.head?, isBlank head = true) :
      SetsDelimiter delimiter (blanks ++ (next.text ++ rest)) next
  | none {arguments : Text}
      (blank : ∀ character ∈ arguments, isBlank character = true) :
      SetsDelimiter delimiter arguments delimiter

/-- The units of a stream in which the delimiter is in force at first. -/
inductive UnitsCut : Delimiter → List StatementUnit → Prop where
  | nil (delimiter : Delimiter) : UnitsCut delimiter []
  | statement {delimiter : Delimiter} {atLineStart : Bool}
      {unit front tail : Text} {units : List StatementUnit}
      (cut : CutAtDelimiter delimiter unit (units.flatMap StatementUnit.text)
          front tail) (behind : UnitsCut delimiter units) :
      UnitsCut delimiter (⟨.statement, atLineStart, unit⟩ :: units)
  | directive {delimiter next : Delimiter} {atLineStart : Bool}
      {unit lead keyword arguments lineBreak : Text} {padding : Char}
      {units : List StatementUnit}
      (line : DirectiveLine unit (units.flatMap StatementUnit.text) lead keyword
          padding arguments lineBreak)
      (sets : SetsDelimiter delimiter (padding :: (arguments ++ lineBreak))
          next) (behind : UnitsCut next units) :
      UnitsCut delimiter (⟨.directive, atLineStart, unit⟩ :: units)
  | trailing {delimiter : Delimiter} {atLineStart : Bool} {unit : Text}
      (nowhere : ∀ front behind, unit = front ++ (delimiter.text ++ behind) →
        ¬({} : Lexer).CodeBoundary front (delimiter.text ++ behind)) :
      UnitsCut delimiter [⟨.trailing, atLineStart, unit⟩]

private theorem endsLineBehind_of_unitTail {behind : Text} {count : Nat}
    {atEnd : Bool} (known : unitTail? atEnd behind = some count) :
    EndsLineBehind (behind.take count) := by
  have pads : ∀ character ∈ behind.takeWhile isPadding, isPadding character =
      true := by
    intro character member
    exact List.all_eq_true.mp List.all_takeWhile character member
  have parts : behind.takeWhile isPadding ++ behind.dropWhile isPadding =
      behind :=
    List.takeWhile_append_dropWhile
  unfold unitTail? at known
  generalize behind.takeWhile isPadding = padding at pads parts known
  generalize behind.dropWhile isPadding = later at parts
  subst parts
  dsimp only at known
  rw [List.drop_left] at known
  have takes (lineBreak rest : Text) (laterEq : later = lineBreak ++ rest)
      (isBreak : lineBreak = [] ∨ lineBreak = ['\n'] ∨
        lineBreak = ['\r', '\n']) :
      EndsLineBehind
        ((padding ++ later).take (padding.length + lineBreak.length)) := by
    rw [laterEq, ← List.append_assoc, List.take_left' (List.length_append ..)]
    exact ⟨padding, lineBreak, rfl, pads, isBreak⟩
  have nothing : EndsLineBehind ((padding ++ later).take 0) := by
    rw [List.take_zero]
    exact ⟨[], [], rfl, List.forall_mem_nil _, .inl rfl⟩
  split at known
  · split at known
    · obtain rfl := Option.some.inj known
      exact takes [] [] rfl (.inl rfl)
    · simp at known
  · next rest =>
      obtain rfl := Option.some.inj known
      exact takes ['\n'] rest rfl (.inr (.inl rfl))
  · next rest =>
      obtain rfl := Option.some.inj known
      exact takes ['\r', '\n'] rest rfl (.inr (.inr rfl))
  · split at known
    · obtain rfl := Option.some.inj known
      exact nothing
    · simp at known
  · obtain rfl := Option.some.inj known
    exact nothing

private theorem not_mem_of_sameAsciiWord {keyword : Text}
    (same : Text.sameAsciiWord directiveKeyword keyword = true) :
    '\n' ∉ keyword := by
  intro member
  simp only [Text.sameAsciiWord, beq_iff_eq] at same
  have lowered : Char.toLower '\n' ∈ keyword.map Char.toLower :=
    List.mem_map_of_mem member
  rw [← same] at lowered
  exact absurd lowered (by decide)

theorem exists_line (text : Text) :
    ∃ line later, text = line ++ later ∧ text.takeWhile (· != '\n') = line ∧
    '\n' ∉ line ∧
      (later = [] ∨ ∃ behind, later = '\n' :: behind) := by
  have parts : text.takeWhile (· != '\n') ++ text.dropWhile (· != '\n') =
      text :=
    List.takeWhile_append_dropWhile
  refine ⟨_, _, parts.symm, rfl, ?_, ?_⟩
  · intro member
    have other := List.all_eq_true.mp List.all_takeWhile '\n' member
    simp at other
  · have stop := List.head?_dropWhile_not (· != '\n') text
    cases later : text.dropWhile (· != '\n') with
    | nil => exact .inl rfl
    | cons head behind =>
        obtain rfl : head = '\n' := by simpa [later] using stop
        exact .inr ⟨behind, rfl⟩

theorem directiveLength_spec {text : Text} {length : Nat}
    (found : directiveLength true text = .found length) :
    ∃ keyword padding arguments lineBreak,
      text.take length = keyword ++ padding :: (arguments ++ lineBreak) ∧
      keyword.length = directiveKeyword.length ∧
      Text.sameAsciiWord directiveKeyword keyword = true ∧
      isPadding padding = true ∧
      '\n' ∉ arguments ∧
      (lineBreak = ['\n'] ∨ lineBreak = [] ∧ text.drop length = []) := by
  obtain ⟨keyword, padding, rest, rfl, same, pads⟩ :=
    directiveLength_true_found_iff.mp ⟨length, found⟩
  have keywordLength : keyword.length = directiveKeyword.length := by
    simp only [Text.sameAsciiWord, beq_iff_eq] at same
    simpa using (congrArg List.length same).symm
  have keywordLine : ∀ character ∈ keyword, (character != '\n') = true := by
    intro character member
    apply bne_iff_ne.mpr
    rintro rfl
    exact not_mem_of_sameAsciiWord same member
  have paddingLine : (padding != '\n') = true := by
    apply bne_iff_ne.mpr
    rintro rfl
    exact absurd pads (by decide)
  obtain ⟨arguments, later, rfl, argumentsLine, oneLine, ends⟩ :=
    exists_line rest
  have paddingFirst : (padding :: (arguments ++ later)).takeWhile (· != '\n') =
      padding :: (arguments ++ later).takeWhile (· != '\n') :=
    List.takeWhile_cons_of_pos paddingLine
  have line : (keyword ++ padding :: (arguments ++ later)).takeWhile
      (· != '\n') =
      keyword ++ padding :: arguments := by
    rw [List.takeWhile_append_of_pos keywordLine, paddingFirst, argumentsLine]
  unfold directiveLength at found
  rw [List.drop_left' keywordLength, List.take_left' keywordLength] at found
  simp only [same, pads, Bool.and_self, if_true, line] at found
  refine ⟨keyword, padding, arguments, ?_⟩
  rcases ends with rfl | ⟨behind, rfl⟩
  · have unbroken : ¬(keyword ++ padding :: arguments).length <
        (keyword ++ padding :: (arguments ++ [])).length := by simp
    rw [if_neg unbroken] at found
    obtain rfl := Probe.found.inj found
    refine ⟨[], ?_, keywordLength, same, pads, oneLine, .inr ⟨rfl, ?_⟩⟩
    · simp only [List.append_nil]
      exact List.take_length
    · simp
  · have broken : (keyword ++ padding :: arguments).length <
        (keyword ++ padding :: (arguments ++ '\n' :: behind)).length := by simp
    rw [if_pos broken] at found
    obtain rfl := Probe.found.inj found
    have wholeEq : keyword ++ padding :: (arguments ++ '\n' :: behind) =
        keyword ++ padding :: arguments ++ '\n' :: behind := by simp
    refine ⟨['\n'], ?_, keywordLength, same, pads, oneLine, .inl rfl⟩
    rw [wholeEq, List.take_length_add_append]
    simp

private theorem setsDelimiter_ofArguments (delimiter : Delimiter)
    (arguments : Text) :
    SetsDelimiter delimiter arguments
      ((Delimiter.ofArguments? arguments).getD delimiter) := by
  have parts : arguments.takeWhile isBlank ++ arguments.trimStart = arguments :=
    List.takeWhile_append_dropWhile
  have blank : ∀ character ∈ arguments.takeWhile isBlank,
      isBlank character = true :=
    List.all_eq_true.mp List.all_takeWhile
  have start : ∀ head ∈ arguments.trimStart.head?, isBlank head = false := by
    intro head first
    have stop := List.head?_dropWhile_not isBlank arguments
    simp only [Option.mem_def, Text.trimStart] at first
    simpa [first] using stop
  unfold Delimiter.ofArguments?
  generalize arguments.takeWhile isBlank = blanks at parts blank
  generalize arguments.trimStart = words at parts start
  subst parts
  have wordParts : words.takeWhile (fun character => !isBlank character) ++
      words.dropWhile (fun character => !isBlank character) = words :=
    List.takeWhile_append_dropWhile
  have visible :
      ∀ character ∈ words.takeWhile (fun character => !isBlank character),
      isBlank character = false := by
    intro character member
    have shown := List.all_eq_true.mp List.all_takeWhile character member
    simpa using shown
  have ends :
      ∀ head ∈ (words.dropWhile (fun character => !isBlank character)).head?,
      isBlank head = true := by
    intro head first
    have stop := List.head?_dropWhile_not (fun character => !isBlank character)
      words
    simp only [Option.mem_def] at first
    simpa [first] using stop
  generalize words.takeWhile (fun character => !isBlank character) = word
    at wordParts visible
  generalize words.dropWhile (fun character => !isBlank character) = rest
    at wordParts ends
  subst wordParts
  cases word with
  | nil =>
      cases rest with
      | nil =>
          rw [List.append_nil, List.append_nil]
          exact .none blank
      | cons head tail =>
          have shown := start head rfl
          rw [ends head rfl] at shown
          exact absurd shown.symm Bool.false_ne_true
  | cons head tail => exact .word ⟨head :: tail, by simp⟩ blank visible ends

namespace StatementAssembler

variable {assembler moved : StatementAssembler}
  {finished : Option StatementUnit}

/-- The lexer is where a lexer that began with the unfinished unit would be: it
has met no delimiter in force, and as long as no token was seen it has read
trivia. -/
structure Tracks (assembler : StatementAssembler) : Prop where
  proper : assembler.lexer.Proper
  read : ∃ steps, Lexer.Reads {} assembler.pending steps assembler.lexer
    assembler.ahead
  first : ∀ front behind, assembler.pending =
    front ++ (assembler.delimiter.text ++ behind) →
    ({} : Lexer).CodeBoundary front (assembler.delimiter.text ++ behind) →
      assembler.lexed.length ≤ front.length
  trivia : assembler.tokenSeen = false →
    Lexer.Skips {} assembler.lexed.reverse assembler.ahead assembler.lexer

theorem tracks_of_begin (start : assembler.lexer = {})
    (nothing : assembler.lexed = []) :
    assembler.Tracks := by
  constructor
  · rw [start]
    exact Lexer.proper_start
  · rw [start, pending, nothing]
    exact ⟨[], .done _ _⟩
  · intro front behind _ _
    rw [nothing]
    exact Nat.zero_le _
  · intro _
    simp [Lexer.Skips, start, nothing]

theorem pending_lexOne (step : assembler.lexOne? true = some moved) :
    moved.pending = assembler.pending := by
  obtain ⟨-, -, aheadEq, lexedEq, -, -⟩ := lexOne?_spec step
  simp [pending, aheadEq, lexedEq]

private theorem skips_lexOne (step : assembler.lexOne? true = some moved)
    (skips : assembler.tokenSeen = false →
      Lexer.Skips {} assembler.lexed.reverse assembler.ahead assembler.lexer)
    (noToken : moved.tokenSeen = false) :
    Lexer.Skips {} moved.lexed.reverse moved.ahead moved.lexer := by
  have seen := tokenSeen_lexOne step
  obtain ⟨-, lexerEq, aheadMoved, lexedEq, -, -⟩ := lexOne?_spec step
  rw [noToken] at seen
  have noneBefore : assembler.tokenSeen = false := by
    cases before : assembler.tokenSeen with
    | false => rfl
    | true => simp [before] at seen
  cases aheadEq : assembler.ahead with
  | nil => simp [lexOne?, aheadEq, Lexer.step] at step
  | cons head tail =>
      have offset := assembler.lexer.triviaLength_cons head tail
      simp only [noneBefore, aheadEq, List.head?_cons, Option.any_some,
        Bool.false_or] at seen
      rw [← seen, if_neg Bool.false_ne_true] at offset
      have before := skips noneBefore
      have fits := assembler.lexer.taken_le (head :: tail)
      rw [aheadEq] at before lexerEq aheadMoved lexedEq
      change moved.lexer = assembler.lexer.next (head :: tail) at lexerEq
      change moved.ahead =
        (head :: tail).drop (assembler.lexer.taken (head :: tail)) at aheadMoved
      change moved.lexed =
        ((head :: tail).take (assembler.lexer.taken (head :: tail))).reverse ++
        assembler.lexed at lexedEq
      unfold Lexer.Skips at before ⊢
      rw [lexerEq, aheadMoved, lexedEq, List.reverse_append,
        List.reverse_reverse, List.append_assoc, List.take_append_drop, before,
        offset, List.length_append, List.length_take, Nat.min_eq_left fits]
      omega

/-- A lexed step keeps track of the unit. -/
theorem Tracks.lexOne (tracks : assembler.Tracks)
    (step : assembler.lexOne? true = some moved)
    (noTerminator : assembler.behindDelimiter? = none) : moved.Tracks := by
  have same := pending_lexOne step
  obtain ⟨decided, lexerEq, aheadMoved, lexedEq, ⟨delimiterEq, -⟩, -⟩ :=
    lexOne?_spec step
  obtain ⟨steps, read⟩ := tracks.read
  have nonempty : assembler.ahead ≠ [] := by
    intro empty
    simp [empty, Lexer.step] at decided
  have readStep := Lexer.Reads.one assembler.lexer nonempty
  constructor
  · rw [lexerEq]
    exact (Lexer.outcome_next assembler.lexer nonempty).proper tracks.proper
  · rw [same, lexerEq, aheadMoved]
    exact ⟨_, read.trans readStep⟩
  · intro front behind split found
    rw [same, delimiterEq] at split
    rw [delimiterEq] at found
    have lexedFirst := tracks.first front behind split found
    -- The boundary is one of the text ahead: not at its start, and not inside
    -- the step.
    rw [← List.length_reverse] at lexedFirst
    obtain ⟨further, rfl, aheadEq⟩ : ∃ further,
      front = assembler.lexed.reverse ++ further ∧
        assembler.ahead = further ++ (assembler.delimiter.text ++ behind) := by
      rcases List.append_eq_append_iff.mp split with
        ⟨further, frontEq, later⟩ | ⟨further, lexedEq, later⟩
      · exact ⟨further, frontEq, later⟩
      · have lengths := congrArg List.length lexedEq
        rw [List.length_append] at lengths
        have none : further = [] := List.eq_nil_of_length_eq_zero (by omega)
        subst none
        exact ⟨[], by simpa using lexedEq.symm, by simpa using later.symm⟩
    rw [pending, aheadEq] at read
    have ahead := read.codeBoundary_iff.mp found
    have further_ne_nil : further ≠ [] := by
      rintro rfl
      have top := Lexer.codeBoundary_nil.mp ahead
      have delimited := behindDelimiter?_eq_some_iff.mpr ⟨top, aheadEq⟩
      rw [noTerminator] at delimited
      exact Option.some_ne_none _ delimited.symm
    have fits := ahead.taken_le further_ne_nil
    rw [← aheadEq] at fits
    have inside := assembler.lexer.taken_le assembler.ahead
    rw [lexedEq, List.length_append, List.length_append, List.length_reverse,
      List.length_reverse, List.length_take]
    change min (assembler.lexer.taken assembler.ahead) _ + _ ≤ _
    omega
  · exact skips_lexOne step tracks.trivia

private theorem finish_of_move
    (moves : assembler.move? true = some (moved, finished)) :
    assembler.finish.2.1 = finished.toList ++ moved.finish.2.1 := by
  unfold finish
  rw [run_nil_of_some moves]
  simp

private theorem flatMap_text_finish (assembler : StatementAssembler) :
    assembler.finish.2.1.flatMap StatementUnit.text = assembler.pending := by
  cases start : assembler.atLineStart with
  | true => exact (finish_spec assembler [] start).1
  | false => exact (finish_spec assembler ['x'] start).1

theorem lexer_eq_start (tracks : assembler.Tracks)
    (top : assembler.lexer.atTopLevel = true) :
    assembler.lexer = {} :=
  Lexer.eq_start_of_atTopLevel tracks.proper top

/-- The unit that ends at the delimiter ahead is cut there. -/
theorem cutAtDelimiter_takeStatement {behind : Text} {tailLength : Nat}
    (tracks : assembler.Tracks)
    (found : assembler.behindDelimiter? = some behind)
    (known : unitTail? true behind = some tailLength) :
    CutAtDelimiter assembler.delimiter
      (assembler.takeStatement tailLength).2.text
      (behind.drop tailLength) assembler.lexed.reverse
        (behind.take tailLength) := by
  obtain ⟨top, aheadEq⟩ := behindDelimiter?_eq_some_iff.mp found
  obtain ⟨steps, read⟩ := tracks.read
  have behindEq := List.take_append_drop tailLength behind
  have inStream : ({} : Lexer).FirstBoundary assembler.delimiter.text
      assembler.lexed.reverse
      behind := by
    constructor
    · rw [pending, aheadEq] at read
      exact ⟨steps, assembler.lexer, read, top⟩
    · intro earlier later split boundary
      rw [List.length_reverse]
      apply tracks.first earlier later _ boundary
      rw [pending, aheadEq, split]
  have textEq : (assembler.takeStatement tailLength).2.text =
      assembler.lexed.reverse ++
      (assembler.delimiter.text ++ behind.take tailLength) := by
    simp [takeStatement, cut, aheadEq, List.take_length_add_append]
  have alone :=
    inStream.congr_behind assembler.delimiter.nonempty (behind.take tailLength)
  refine ⟨textEq, alone, ?_, ?_, endsLineBehind_of_unitTail known⟩
  · rw [behindEq]
    exact inStream
  · have places := alone.places_take assembler.delimiter.nonempty behind
    rw [textEq, List.append_assoc, List.append_assoc, behindEq]
    exact places

/-- The directive ahead is a line of its own. -/
theorem directiveLine_takeDirective {length : Nat} (tracks : assembler.Tracks)
    (probe : assembler.directiveProbe true = .found length) :
    ∃ lead keyword padding arguments lineBreak,
      DirectiveLine (assembler.takeDirective length).2.text
        (assembler.ahead.drop length) lead
        keyword padding arguments lineBreak ∧
      SetsDelimiter assembler.delimiter (padding :: (arguments ++ lineBreak))
        (assembler.takeDirective length).1.delimiter ∧
      assembler.lexer = {} := by
  have begins := probe
  unfold directiveProbe at begins
  split at begins
  · next isDirective =>
      simp only [Bool.and_eq_true, Bool.not_eq_true'] at isDirective
      obtain ⟨⟨top, noToken⟩, letter⟩ := isDirective
      have start := lexer_eq_start tracks top
      obtain ⟨keyword, padding, arguments, lineBreak, lineEq, keywordLength,
        same, pads, oneLine, ends⟩ := directiveLength_spec begins
      have aheadEq := List.take_append_drop length assembler.ahead
      rw [lineEq] at aheadEq
      obtain ⟨steps, read⟩ := tracks.read
      -- The keyword is a token, so what was lexed in front of it are the trivia
      -- of the unit.
      have offset : statementOffset assembler.pending =
          assembler.lexed.reverse.length := by
        have skips := tracks.trivia noToken
        unfold Lexer.Skips at skips
        cases ahead : assembler.ahead with
        | nil => simp [ahead] at letter
        | cons head tail =>
            simp only [ahead, List.head?_cons, Option.any_some] at letter
            obtain ⟨plain, visible⟩ := plain_of_letter letter
            rw [ahead, Lexer.triviaLength_of_plain tail top plain visible,
              ← ahead] at skips
            exact skips
      have trivia : Trivia assembler.lexed.reverse := by
        have front := trivia_take_statementOffset assembler.pending
        rw [offset, pending, List.drop_left, List.take_left] at front
        apply front
        intro none
        simp [none] at letter
      have textEq : (assembler.takeDirective length).2.text =
          assembler.lexed.reverse ++
          (keyword ++ padding :: (arguments ++ lineBreak)) := by
        simp [takeDirective, cut, lineEq]
      have delimiterEq : (assembler.takeDirective length).1.delimiter =
          (Delimiter.ofArguments? (padding :: (arguments ++ lineBreak))).getD
            assembler.delimiter := by
        have behind : (keyword ++ padding :: (arguments ++ lineBreak)).drop
            directiveKeyword.length = padding :: (arguments ++ lineBreak) :=
          List.drop_left' keywordLength
        simp only [takeDirective, cut, lineEq, behind]
      refine ⟨_, keyword, padding, arguments, lineBreak,
        ⟨textEq, trivia, ⟨steps, assembler.lexer, ?_, top⟩, same, pads, oneLine,
          ends⟩, ?_, start⟩
      · rw [aheadEq]
        exact read
      · rw [delimiterEq]
        exact setsDelimiter_ofArguments _ _
  · simp at begins

/-- The units that an assembler gives from here on are cut at their
delimiters. -/
theorem unitsCut_finish (assembler : StatementAssembler)
    (tracks : assembler.Tracks) :
    UnitsCut assembler.delimiter assembler.finish.2.1 := by
  induction assembler using move_induction true with
  | stop assembler stops =>
      have empty : assembler.ahead = [] :=
        Decidable.byContradiction fun nonempty =>
          move?_true_ne_none nonempty stops
      unfold finish
      rw [run_of_none [] stops]
      simp only [List.reverse_nil, List.nil_append]
      split
      · exact .nil _
      · apply UnitsCut.trailing
        intro front behind split found
        have first := tracks.first front behind split found
        have lengths := congrArg List.length split
        have positive := List.length_pos_iff.mpr assembler.delimiter.nonempty
        simp only [empty, List.append_nil, List.length_append,
          List.length_reverse] at lengths
        omega
  | step assembler moved finished moves ih =>
      rw [finish_of_move moves]
      have following := flatMap_text_finish moved
      cases move_of_move? moves with
      | @directive length probe =>
          obtain ⟨lead, keyword, padding, arguments, lineBreak, line,
            sets, start⟩ :=
            directiveLine_takeDirective tracks probe
          have behind := ih (tracks_of_begin start rfl)
          have ahead : (assembler.takeDirective length).1.pending =
              assembler.ahead.drop length := by
            simp [pending, takeDirective, StatementAssembler.cut]
          rw [← ahead, ← following] at line
          exact .directive line sets behind
      | @statement behind tailLength found known =>
          obtain ⟨top, aheadEq⟩ := behindDelimiter?_eq_some_iff.mp found
          have start := lexer_eq_start tracks top
          have later := ih (tracks_of_begin start rfl)
          have cut := cutAtDelimiter_takeStatement tracks found known
          have rest : (assembler.takeStatement tailLength).1.pending =
              behind.drop tailLength := by
            simp [pending, takeStatement, StatementAssembler.cut, aheadEq,
              List.drop_length_add_append]
          rw [← rest, ← following] at cut
          exact .statement cut later
      | lexed step noDirective noTerminator =>
          have same := (lexOne?_spec step).2.2.2.2.1.1
          rw [← same]
          exact ih (tracks.lexOne step noTerminator)

/-- Between two pushes the lexer is where one that began with the unfinished
unit would be, whatever follows. -/
structure Follows (assembler : StatementAssembler) : Prop where
  proper : assembler.lexer.Proper
  read : ∀ more, ∃ steps, Lexer.Reads {} (assembler.pending ++ more) steps
    assembler.lexer
    (assembler.ahead ++ more)

theorem follows_of_begin (start : assembler.lexer = {})
    (nothing : assembler.lexed = []) :
    assembler.Follows := by
  constructor
  · rw [start]
    exact Lexer.proper_start
  · intro more
    rw [start, pending, nothing]
    exact ⟨[], .done _ _⟩

theorem Follows.move (follows : assembler.Follows)
    (moves : assembler.move? false = some (moved, finished)) :
    moved.Follows := by
  cases move_of_move? moves with
  | directive probe =>
      apply follows_of_begin _ rfl
      unfold directiveProbe at probe
      split at probe
      · next isDirective =>
          simp only [Bool.and_eq_true] at isDirective
          exact Lexer.eq_start_of_atTopLevel follows.proper isDirective.1.1
      · simp at probe
  | statement found known =>
      have top := (behindDelimiter?_eq_some_iff.mp found).1
      exact follows_of_begin (Lexer.eq_start_of_atTopLevel follows.proper top)
        rfl
  | lexed step noDirective noTerminator =>
      obtain ⟨decided, lexerEq, aheadMoved, lexedEq, -, -⟩ := lexOne?_spec step
      have fits := assembler.lexer.consumed_step_le false assembler.ahead
      have outcome := Lexer.outcome_step decided
      constructor
      · rw [lexerEq]
        exact outcome.proper follows.proper
      · intro more
        obtain ⟨steps, read⟩ := follows.read more
        have stepEq := Lexer.step_append true more decided
        generalize assembler.lexer.step false assembler.ahead = taken at *
        have readStep := Lexer.Reads.of_decided stepEq decided
        rw [List.drop_append_of_le_length fits] at readStep
        have same : moved.pending = assembler.pending := by
          simp [pending, aheadMoved, lexedEq]
        rw [same, lexerEq, aheadMoved]
        exact ⟨_, read.trans readStep⟩

theorem Follows.run (follows : assembler.Follows) :
    (run false assembler []).1.Follows := by
  induction assembler using move_induction false with
  | stop assembler stops =>
      rw [run_of_none [] stops]
      exact follows
  | step assembler moved finished moves ih =>
      rw [run_nil_of_some moves]
      exact ih (follows.move moves)

theorem Follows.push (follows : assembler.Follows) (text : Text) :
    (assembler.push text).1.Follows := by
  apply Follows.run
  refine ⟨follows.proper, ?_⟩
  intro more
  have read := follows.read (text ++ more)
  simpa [pending] using read

theorem Follows.pushAll (follows : assembler.Follows) (chunks : List Text) :
    (assembler.pushAll chunks).1.Follows := by
  induction chunks generalizing assembler with
  | nil => exact follows
  | cons chunk chunks ih => exact ih (follows.push chunk)

end StatementAssembler

/-- The units of a stream join to it and are cut exactly at the delimiters in
force, and the lexer of the stream agrees with a lexer that begins with the
unfinished unit. -/
theorem units_cut_at_delimiters (chunks : List Text) :
    (unitsIn chunks).flatMap StatementUnit.text = chunks.flatten ∧
      UnitsCut .semicolon (unitsIn chunks) ∧
      ∀ more, ∃ steps, Lexer.Reads {}
        ((({} : StatementAssembler).pushAll chunks).1.pending ++ more) steps
        (({} : StatementAssembler).pushAll chunks).1.lexer
        ((({} : StatementAssembler).pushAll chunks).1.ahead ++ more) := by
  have begins : (({} : StatementAssembler).withMore chunks.flatten).Tracks :=
    StatementAssembler.tracks_of_begin rfl rfl
  have follows : ({} : StatementAssembler).Follows :=
    StatementAssembler.follows_of_begin rfl rfl
  rw [unitsIn_eq]
  exact ⟨(unitsOf_spec chunks.flatten).1,
    StatementAssembler.unitsCut_finish _ begins,
    (follows.pushAll chunks).read⟩

end SqlDump
