import SqlDump.Pipeline.TableOptions
import SqlDump.Proofs.Pipeline.ZoneStatement
import SqlDump.Proofs.Text.Word

/-!
# Mentions of table options

The four options that a statement can lack, what is written for each, and what
counts as a mention of it.  A text sets an option exactly if it mentions it;
what is written for an option mentions it, and a mention stays one when
something is written behind the last visible character.
-/

namespace SqlDump

inductive TableOption where
  | engine
  | rowFormat
  | charset
  | collation
deriving DecidableEq, Repr

namespace TableOption

/-- All options in the order in which they are written. -/
def all : List TableOption :=
  [engine, rowFormat, charset, collation]

def label : TableOption → Text
  | engine => " ENGINE=".toList
  | rowFormat => " ROW_FORMAT=".toList
  | charset => " DEFAULT CHARSET=".toList
  | collation => " COLLATE=".toList

def value? (info : TableInfo) : TableOption → Option Text
  | engine => info.engine
  | rowFormat => info.rowFormat
  | charset => info.charset
  | collation => info.collation

def pattern : TableOption → Option Char → Text → Bool
  | engine => TableOptions.isAssignment "ENGINE".toList
  | rowFormat => TableOptions.isAssignment "ROW_FORMAT".toList
  | charset => fun before text =>
      TableOptions.isWholeWord "CHARSET".toList before text ||
        TableOptions.isCharacterSet before text
  | collation => TableOptions.isWholeWord "COLLATE".toList

def isSet (option : TableOption) (options : Text) : Bool :=
  TableOptions.occurs option.pattern none options

def written (info : TableInfo) (option : TableOption) : Text :=
  option.label ++ (option.value? info).getD []

def lacking (options : Text) (info : TableInfo) : List TableOption :=
  all.filter fun option => !option.isSet options && (option.value? info).isSome

/-- The text is a mention of the option in front of the next character. -/
inductive Mention (next : Option Char) : TableOption → Text → Prop where
  | engine {word gap : Text} (isWord : IsWord "ENGINE".toList word)
      (blank : gap.isAllBlank = true) :
      Mention next .engine (word ++ (gap ++ ['=']))
  | rowFormat {word gap : Text} (isWord : IsWord "ROW_FORMAT".toList word)
      (blank : gap.isAllBlank = true) :
      Mention next .rowFormat (word ++ (gap ++ ['=']))
  | charset {word : Text} (isWord : IsWord "CHARSET".toList word)
      (ends : endsWord next = true) :
      Mention next .charset word
  | characterSet {first gap second : Text}
      (isFirst : IsWord "CHARACTER".toList first) (nonempty : gap ≠ [])
      (blank : gap.isAllBlank = true) (isSecond : IsWord "SET".toList second)
      (ends : endsWord next = true) :
      Mention next .charset (first ++ (gap ++ second))
  | collation {word : Text} (isWord : IsWord "COLLATE".toList word)
      (ends : endsWord next = true) : Mention next .collation word

/-- Somewhere in the text a mention of the option begins at the start of a
word. -/
def Mentioned (option : TableOption) (text : Text) : Prop :=
  ∃ front mention rest, text = front ++ (mention ++ rest) ∧
  endsWord front.getLast? = true ∧
    Mention rest.head? option mention

variable {option : TableOption} {options text front rest : Text}
  {info : TableInfo}

theorem additions_eq (options : Text) (info : TableInfo) :
    TableOptions.additions options info = (lacking options info).flatMap
      (written info) := by
  have one (option : TableOption) :
      TableOptions.addition option.label (option.isSet options)
        (option.value? info) =
        if !option.isSet options && (option.value? info).isSome then
          written info option
        else [] := by
    rw [written]
    cases option.isSet options <;> cases option.value? info <;> rfl
  have each : TableOptions.additions options info =
      TableOptions.addition engine.label (engine.isSet options)
        (engine.value? info) ++
        TableOptions.addition rowFormat.label (rowFormat.isSet options)
          (rowFormat.value? info) ++
        TableOptions.addition charset.label (charset.isSet options)
          (charset.value? info) ++
        TableOptions.addition collation.label (collation.isSet options)
          (collation.value? info) :=
    rfl
  have joined (kept : TableOption → Bool) : ∀ options : List TableOption,
      (options.filter kept).flatMap (written info) =
        options.flatMap fun option => if kept option then written info option
          else [] := by
    intro options
    induction options with
    | nil => rfl
    | cons first others ih =>
        rw [List.filter_cons, List.flatMap_cons, ← ih]
        cases kept first <;> rfl
  rw [each, one, one, one, one, lacking, joined, all]
  simp

theorem isAssignment_iff {word : Text} {before : Option Char} :
    TableOptions.isAssignment word before text = true ↔
      endsWord before = true ∧ ∃ read gap rest,
        text = (read ++ (gap ++ ['='])) ++ rest ∧
        IsWord word read ∧ gap.isAllBlank = true := by
  have visible : ∀ tail : Text, ∀ head ∈ ('=' :: tail).head?,
      isBlank head = false := by
    intro tail head first
    obtain rfl : '=' = head := by simpa using first
    rfl
  rw [TableOptions.isAssignment, Bool.and_eq_true]
  refine and_congr_right fun _ => ?_
  constructor
  · intro assigns
    split at assigns
    · next rest found =>
        obtain ⟨read, rfl, isWord⟩ := afterWord?_spec found
        obtain ⟨gap, split, blank⟩ := trimStart_spec rest
        rw [beq_iff_eq] at assigns
        obtain ⟨tail, trimmed⟩ := List.head?_eq_some_iff.mp assigns
        refine ⟨read, gap, tail, ?_, isWord, blank⟩
        rw [split, trimmed]
        simp
    · simp at assigns
  · rintro ⟨read, gap, tail, rfl, isWord, blank⟩
    have whole : read ++ (gap ++ ['=']) ++ tail =
      read ++ (gap ++ '=' :: tail) := by simp
    rw [whole, afterWord?_iff.mpr ⟨read, rfl, isWord⟩]
    dsimp only
    rw [trimStart_append blank (visible tail)]
    rfl

theorem isWholeWord_iff {word : Text} {before : Option Char} :
    TableOptions.isWholeWord word before text = true ↔
      endsWord before = true ∧ ∃ read rest, text = read ++ rest ∧
      IsWord word read ∧
        endsWord rest.head? = true := by
  rw [TableOptions.isWholeWord, Bool.and_eq_true]
  refine and_congr_right fun _ => ?_
  constructor
  · intro whole
    split at whole
    · next rest found =>
        obtain ⟨read, rfl, isWord⟩ := afterWord?_spec found
        exact ⟨read, rest, rfl, isWord, whole⟩
    · simp at whole
  · rintro ⟨read, rest, rfl, isWord, ends⟩
    rw [afterWord?_iff.mpr ⟨read, rfl, isWord⟩]
    exact ends

private theorem isCharacterSet_iff {before : Option Char} :
    TableOptions.isCharacterSet before text = true ↔
      endsWord before = true ∧ ∃ first gap second rest,
        text = (first ++ (gap ++ second)) ++ rest ∧
        IsWord "CHARACTER".toList first ∧ gap ≠ [] ∧ gap.isAllBlank = true ∧
        IsWord "SET".toList second ∧ endsWord rest.head? = true := by
  rw [TableOptions.isCharacterSet, Bool.and_eq_true]
  refine and_congr_right fun _ => ?_
  constructor
  · intro whole
    split at whole
    · next rest found =>
        obtain ⟨behindGap, gapFound, setFound⟩ :=
          Option.bind_eq_some_iff.mp found
        obtain ⟨behindFirst, firstFound, blanksFound⟩ :=
          Option.bind_eq_some_iff.mp gapFound
        obtain ⟨first, rfl, isFirst⟩ := afterWord?_spec firstFound
        obtain ⟨gap, rfl, nonempty, blank⟩ := afterBlanks?_spec blanksFound
        obtain ⟨second, rfl, isSecond⟩ := afterWord?_spec setFound
        exact ⟨first, gap, second, rest, by simp, isFirst, nonempty, blank,
          isSecond, whole⟩
    · simp at whole
  · rintro ⟨first, gap, second, rest, rfl, isFirst, nonempty, blank, isSecond,
      ends⟩
    have split : first ++ (gap ++ second) ++ rest =
        first ++ (gap ++ (second ++ rest)) := by simp
    have secondVisible : ∀ head ∈ (second ++ rest).head?,
        isBlank head = false := by
      intro head member
      cases second with
      | nil => simp [IsWord] at isSecond
      | cons letter letters =>
          obtain rfl : letter = head := by simpa using member
          exact visible_of_isWord isSecond (by decide) letter List.mem_cons_self
    rw [split, Ddl.afterWordBlanks?, afterWord?_iff.mpr ⟨first, rfl, isFirst⟩,
      Option.bind_some, afterBlanks?_append nonempty blank secondVisible,
      Option.bind_some, afterWord?_iff.mpr ⟨second, rfl, isSecond⟩]
    exact ends

/-- The pattern of an option finds its mentions. -/
theorem pattern_iff {before : Option Char} :
    option.pattern before text = true ↔
      endsWord before = true ∧ ∃ mention rest, text = mention ++ rest ∧
        Mention rest.head? option mention := by
  cases option with
  | engine =>
      refine isAssignment_iff.trans (and_congr_right fun _ => ?_)
      constructor
      · rintro ⟨read, gap, rest, rfl, isWord, blank⟩
        exact ⟨_, rest, rfl, .engine isWord blank⟩
      · rintro ⟨mention, rest, rfl, mentions⟩
        cases mentions with
        | engine isWord blank => exact ⟨_, _, rest, rfl, isWord, blank⟩
  | rowFormat =>
      refine isAssignment_iff.trans (and_congr_right fun _ => ?_)
      constructor
      · rintro ⟨read, gap, rest, rfl, isWord, blank⟩
        exact ⟨_, rest, rfl, .rowFormat isWord blank⟩
      · rintro ⟨mention, rest, rfl, mentions⟩
        cases mentions with
        | rowFormat isWord blank => exact ⟨_, _, rest, rfl, isWord, blank⟩
  | charset =>
      have either : TableOption.charset.pattern before text = true ↔
          TableOptions.isWholeWord "CHARSET".toList before text = true ∨
            TableOptions.isCharacterSet before text = true :=
              Bool.or_eq_true_iff
      rw [either, isWholeWord_iff, isCharacterSet_iff, ← and_or_left]
      refine and_congr_right fun _ => ?_
      constructor
      · rintro (⟨read, rest, rfl, isWord, ends⟩ | ⟨first, gap, second, rest,
          rfl, isFirst, nonempty, blank, isSecond, ends⟩)
        · exact ⟨read, rest, rfl, .charset isWord ends⟩
        · exact ⟨_, rest, rfl,
            .characterSet isFirst nonempty blank isSecond ends⟩
      · rintro ⟨mention, rest, rfl, mentions⟩
        cases mentions with
        | charset isWord ends => exact .inl ⟨_, rest, rfl, isWord, ends⟩
        | characterSet isFirst nonempty blank isSecond ends =>
            exact .inr ⟨_, _, _, rest, rfl, isFirst, nonempty, blank, isSecond,
              ends⟩
  | collation =>
      refine isWholeWord_iff.trans (and_congr_right fun _ => ?_)
      constructor
      · rintro ⟨read, rest, rfl, isWord, ends⟩
        exact ⟨read, rest, rfl, .collation isWord ends⟩
      · rintro ⟨mention, rest, rfl, mentions⟩
        cases mentions with
        | collation isWord ends => exact ⟨_, rest, rfl, isWord, ends⟩

private theorem occurs_iff {pattern : Option Char → Text → Bool}
    {before : Option Char} :
    TableOptions.occurs pattern before text = true ↔
      ∃ front rest, text = front ++ rest ∧ rest ≠ [] ∧
        pattern (front.getLast?.or before) rest = true := by
  induction text generalizing before with
  | nil =>
      refine iff_of_false Bool.false_ne_true ?_
      rintro ⟨front, rest, split, nonempty, -⟩
      exact nonempty (List.append_eq_nil_iff.mp split.symm).2
  | cons head tail ih =>
      rw [TableOptions.occurs, Bool.or_eq_true, ih]
      constructor
      · rintro (here | ⟨front, rest, rfl, nonempty, later⟩)
        · exact ⟨[], head :: tail, rfl, List.cons_ne_nil head tail, here⟩
        · refine ⟨head :: front, rest, rfl, nonempty, ?_⟩
          rw [List.getLast?_cons]
          cases last : front.getLast? with
          | none => rwa [last] at later
          | some character => rwa [last] at later
      · rintro ⟨front, rest, split, nonempty, here⟩
        cases front with
        | nil =>
            rw [List.nil_append] at split
            subst split
            exact .inl here
        | cons first front =>
            obtain ⟨rfl, rfl⟩ := List.cons.inj split
            refine .inr ⟨front, rest, rfl, nonempty, ?_⟩
            rw [List.getLast?_cons] at here
            cases last : front.getLast? with
            | none => rwa [last] at here
            | some character => rwa [last] at here

theorem last_of_isWord {word read : Text} (isWord : IsWord word read)
    (nonempty : word ≠ [])
    (letters : blankCodes.all (fun code =>
      !(word.map foldLetter).contains (foldLetter (Char.ofNat code))) = true) :
    ∃ front last, read = front ++ [last] ∧ isBlank last = false := by
  rcases List.eq_nil_or_concat read with rfl | ⟨front, last, rfl⟩
  · exact absurd (List.map_eq_nil_iff.mp isWord.symm) nonempty
  · rw [List.concat_eq_append]
    exact ⟨front, last, rfl, visible_of_isWord isWord letters last (by simp)⟩

/-- A mention ends with a visible character. -/
theorem Mention.last {next : Option Char} {mention : Text}
    (mentions : Mention next option mention) :
    ∃ front last, mention = front ++ [last] ∧ isBlank last = false := by
  have equalsSign : isBlank '=' = false := rfl
  cases mentions with
  | @engine word gap isWord blank =>
      exact ⟨word ++ gap, '=', by rw [List.append_assoc], equalsSign⟩
  | @rowFormat word gap isWord blank =>
      exact ⟨word ++ gap, '=', by rw [List.append_assoc], equalsSign⟩
  | charset isWord ends => exact last_of_isWord isWord (by decide) (by decide)
  | @characterSet first gap second isFirst nonempty blank isSecond ends =>
      obtain ⟨front, last, rfl, visible⟩ :=
        last_of_isWord isSecond (by decide) (by decide)
      exact ⟨first ++ (gap ++ front), last, by simp, visible⟩
  | collation isWord ends => exact last_of_isWord isWord (by decide) (by decide)

theorem Mention.ne_nil {next : Option Char} {mention : Text}
    (mentions : Mention next option mention) : mention ≠ [] := by
  obtain ⟨front, last, rfl, -⟩ := mentions.last
  simp

theorem Mention.congr_next {next other : Option Char} {mention : Text}
    (mentions : Mention next option mention)
    (ends : endsWord next = true → endsWord other = true) :
    Mention other option mention := by
  cases mentions with
  | engine isWord blank => exact .engine isWord blank
  | rowFormat isWord blank => exact .rowFormat isWord blank
  | charset isWord endsHere => exact .charset isWord (ends endsHere)
  | characterSet isFirst nonempty blank isSecond endsHere =>
      exact .characterSet isFirst nonempty blank isSecond (ends endsHere)
  | collation isWord endsHere => exact .collation isWord (ends endsHere)

/-- A text sets an option exactly if it mentions it. -/
theorem isSet_iff : option.isSet options = true ↔ option.Mentioned options := by
  rw [isSet, occurs_iff]
  simp only [Option.or_none, pattern_iff]
  constructor
  · rintro ⟨front, rest, rfl, -, ends, mention, later, rfl, mentions⟩
    exact ⟨front, mention, later, rfl, ends, mentions⟩
  · rintro ⟨front, mention, rest, rfl, ends, mentions⟩
    refine ⟨front, mention ++ rest, rfl, ?_, ends, mention, rest, rfl, mentions⟩
    simp [mentions.ne_nil]

/-- A mention in front of blanks stays one in front of a space and anything
else. -/
theorem Mentioned.before_space {trimmed blanks : Text}
    (mentioned : option.Mentioned (trimmed ++ blanks))
    (blank : blanks.isAllBlank = true) (more : Text) :
    option.Mentioned (trimmed ++ ' ' :: more) := by
  obtain ⟨front, mention, rest, split, begins, mentions⟩ := mentioned
  obtain ⟨inner, last, mentionEq, visible⟩ := mentions.last
  -- The blanks stand behind the last character of the mention.
  obtain ⟨between, rfl, rfl⟩ : ∃ between,
    trimmed = front ++ mention ++ between ∧
      rest = between ++ blanks := by
    rw [← List.append_assoc] at split
    rcases List.append_eq_append_iff.mp split with
        ⟨between, inFront, behind⟩ | ⟨between, same⟩
    · cases between with
      | nil =>
          exact ⟨[], by simpa using inFront.symm, by simpa using behind.symm⟩
      | cons head tail =>
          have lastEq := congrArg List.getLast? inFront
          rw [mentionEq, ← List.append_assoc, List.getLast?_concat,
            List.getLast?_append, List.getLast?_cons, Option.some_or] at lastEq
          have inBlanks : last ∈ blanks := by
            rw [behind]
            exact List.mem_append_left _
              (List.mem_of_getLast? (List.getLast?_cons.trans lastEq.symm))
          have lastBlank := List.all_eq_true.mp blank last inBlanks
          rw [visible] at lastBlank
          exact absurd lastBlank Bool.false_ne_true
    · exact ⟨between, same⟩
  refine ⟨front, mention, between ++ ' ' :: more, by simp, begins,
    mentions.congr_next ?_⟩
  intro ends
  cases between with
  | nil => rfl
  | cons head tail => exact ends

theorem mentioned_written (front : Text) (info : TableInfo)
    (option : TableOption) (more : Text) :
    option.Mentioned (front ++ (option.written info ++ more)) := by
  have behindSpace (words : Text) :
      endsWord (front ++ (words ++ [' '])).getLast? = true := by
    rw [← List.append_assoc, List.getLast?_concat]
    rfl
  have noBlanks : Text.isAllBlank [] = true := rfl
  -- The label is split into the text before the mention, the mention and what
  -- follows.
  obtain ⟨words, mention, sign, split, mentions⟩ : ∃ words mention sign,
      option.label = words ++ [' '] ++ (mention ++ sign) ∧
        ∀ value : Text, Mention (sign ++ value).head? option mention := by
    cases option with
    | engine => exact ⟨[], "ENGINE=".toList, [], rfl, fun _ =>
        @Mention.engine _ _ [] rfl noBlanks⟩
    | rowFormat =>
        exact ⟨[], "ROW_FORMAT=".toList, [], rfl, fun _ =>
          @Mention.rowFormat _ _ [] rfl noBlanks⟩
    | charset =>
        exact ⟨" DEFAULT".toList, "CHARSET".toList, ['='], rfl,
          fun _ => .charset rfl rfl⟩
    | collation =>
        exact ⟨[], "COLLATE".toList, ['='], rfl, fun _ => .collation rfl rfl⟩
  refine ⟨front ++ (words ++ [' ']), mention,
    sign ++ ((option.value? info).getD [] ++ more), ?_,
    behindSpace words, mentions _⟩
  simp [written, split]

end TableOption

end SqlDump
