import SqlDump.Proofs.Lexer.Seam
import SqlDump.Proofs.Pipeline.Effect

/-!
# Options that a statement already sets

An option counts as set if the text of the options line mentions it, wherever
this is.  In code an option is set by a mention in the text that is left when
literals and comments are masked.  The two differ by mentions that a literal or
a comment hides and by mentions that a comment splits.
-/

namespace SqlDump

open Lexer (Marked Seam)

/-- Text that is no code: a quote stands for what is quoted, a blank for what is
commented out. -/
def Lexer.Place.mask (place : Lexer.Place) (character : Char) : Char :=
  match place.lexicalClass with
  | .code => character
  | .literal => singleQuote
  | _ => ' '

/-- A character as code shows it. -/
def shown (mark : Marked) : Char :=
  mark.1.mask mark.2

theorem shown_of_code {mark : Marked} (code : mark.1 = .code) :
    shown mark = mark.2 := by
  rw [shown, code]
  rfl

private theorem not_isWord_shown {mark : Marked} (notCode : mark.1 ≠ .code) :
    isWord (shown mark) = false := by
  obtain ⟨⟨before, after⟩, character⟩ := mark
  cases before <;> cases after <;> first | rfl | exact absurd rfl notCode

/-- What a neighbour of code shows ends words as the neighbour does. -/
theorem endsWord_shown {mark : Marked}
    (apart : mark.1 ≠ .code → isWord mark.2 = false) :
    endsWord (some (shown mark)) = endsWord (some mark.2) := by
  by_cases code : mark.1 = .code
  · rw [shown_of_code code]
  · simp [endsWord, not_isWord_shown code, apart code]

namespace TableOption

variable {option : TableOption} {marked front mention rest : List Marked}
  {shows : Marked → Char}

/-- In the text that the marked characters show, an option is mentioned at a
place. -/
structure MentionIn (shows : Marked → Char) (option : TableOption)
    (marked front mention rest : List Marked) : Prop where
  split : marked = front ++ (mention ++ rest)
  begins : endsWord (front.map shows).getLast? = true
  mentions : Mention (rest.map shows).head? option (mention.map shows)

theorem mentioned_map_iff : option.Mentioned (marked.map shows) ↔
    ∃ front mention rest, MentionIn shows option marked front mention rest := by
  constructor
  · rintro ⟨front, mention, rest, split, begins, mentions⟩
    obtain ⟨frontMarked, behind, rfl, rfl, behindEq⟩ :=
      List.map_eq_append_iff.mp split
    obtain ⟨mentionMarked, restMarked, rfl, rfl, rfl⟩ :=
      List.map_eq_append_iff.mp behindEq
    exact ⟨frontMarked, mentionMarked, restMarked, rfl, begins, mentions⟩
  · rintro ⟨front, mention, rest, rfl, begins, mentions⟩
    exact ⟨front.map shows, mention.map shows, rest.map shows, by simp,
      begins, mentions⟩

def AllCode (mention : List Marked) : Prop :=
  ∀ mark ∈ mention, mark.1 = .code

/-- A mention of the option is code throughout. -/
def SetInCode (option : TableOption) (marked : List Marked) : Prop :=
  ∃ front mention rest, MentionIn Prod.snd option marked front mention rest ∧
  AllCode mention

/-- A mention of the option is at least in part a literal or a comment. -/
def Hidden (option : TableOption) (marked : List Marked) : Prop :=
  ∃ front mention rest, MentionIn Prod.snd option marked front mention rest ∧
  ¬AllCode mention

/-- What code shows has a mention of the option with a comment in it. -/
def Split (option : TableOption) (marked : List Marked) : Prop :=
  ∃ front mention rest, MentionIn shown option marked front mention rest ∧
  ¬AllCode mention

theorem MentionIn.ne_nil
    (mentions : MentionIn shows option marked front mention rest) :
    mention ≠ [] := by
  rintro rfl
  exact mentions.mentions.ne_nil rfl

theorem map_shown (code : AllCode mention) :
    mention.map shown = mention.map Prod.snd :=
  List.map_congr_left fun mark member => shown_of_code (code mark member)

/-- A mention in code does not depend on what the rest shows. -/
theorem mentionIn_shown_iff (chain : List.IsChain Seam marked)
    (code : AllCode mention) :
    MentionIn shown option marked front mention rest ↔
      MentionIn Prod.snd option marked front mention rest := by
  have ends (split : marked = front ++ (mention ++ rest))
      (nonempty : mention ≠ []) :
      endsWord (front.map shown).getLast? =
        endsWord (front.map Prod.snd).getLast? ∧
        endsWord (rest.map shown).head? =
          endsWord (rest.map Prod.snd).head? := by
    rw [split, List.isChain_append, List.isChain_append] at chain
    obtain ⟨-, ⟨-, -, seamBehind⟩, seamInFront⟩ := chain
    constructor
    · rw [List.getLast?_map, List.getLast?_map]
      cases last : front.getLast? with
      | none => rfl
      | some before =>
          obtain ⟨first, others, rfl⟩ := List.exists_cons_of_ne_nil nonempty
          have seam := seamInFront before last first rfl
          exact endsWord_shown fun notCode =>
            seam.2 notCode (code first List.mem_cons_self)
    · rw [List.head?_map, List.head?_map]
      cases first : rest.head? with
      | none => rfl
      | some after =>
          obtain ⟨last, lastEq⟩ := List.getLast?_isSome.mpr nonempty |>
            Option.isSome_iff_exists.mp
          have seam := seamBehind last lastEq after first
          exact endsWord_shown fun notCode =>
            seam.1 (code last (List.mem_of_getLast? lastEq)) notCode
  constructor
  · intro mentioned
    obtain ⟨sameBegin, sameEnd⟩ := ends mentioned.split mentioned.ne_nil
    obtain ⟨split, begins, mentions⟩ := mentioned
    rw [map_shown code] at mentions
    exact ⟨split, sameBegin ▸ begins,
      mentions.congr_next fun ends => sameEnd ▸ ends⟩
  · intro mentioned
    obtain ⟨sameBegin, sameEnd⟩ := ends mentioned.split mentioned.ne_nil
    obtain ⟨split, begins, mentions⟩ := mentioned
    rw [← map_shown code] at mentions
    exact ⟨split, sameBegin ▸ begins,
      mentions.congr_next fun ends => sameEnd ▸ ends⟩

private theorem mentioned_iff (option : TableOption) (marked : List Marked) :
    option.Mentioned (marked.map Prod.snd) ↔ option.SetInCode marked ∨
    option.Hidden marked := by
  rw [mentioned_map_iff]
  constructor
  · rintro ⟨front, mention, rest, mentioned⟩
    by_cases code : AllCode mention
    · exact .inl ⟨front, mention, rest, mentioned, code⟩
    · exact .inr ⟨front, mention, rest, mentioned, code⟩
  · rintro (⟨front, mention, rest, mentioned,
      -⟩ | ⟨front, mention, rest, mentioned, -⟩)
    · exact ⟨front, mention, rest, mentioned⟩
    · exact ⟨front, mention, rest, mentioned⟩

private theorem mentioned_shown_iff (option : TableOption)
    (chain : List.IsChain Seam marked) :
    option.Mentioned (marked.map shown) ↔ option.SetInCode marked ∨
      option.Split marked := by
  rw [mentioned_map_iff]
  constructor
  · rintro ⟨front, mention, rest, mentioned⟩
    by_cases code : AllCode mention
    · exact .inl ⟨front, mention, rest,
        (mentionIn_shown_iff chain code).mp mentioned, code⟩
    · exact .inr ⟨front, mention, rest, mentioned, code⟩
  · rintro (⟨front, mention, rest, mentioned,
      code⟩ | ⟨front, mention, rest, mentioned, -⟩)
    · exact ⟨front, mention, rest,
        (mentionIn_shown_iff chain code).mpr mentioned⟩
    · exact ⟨front, mention, rest, mentioned⟩

end TableOption

namespace TableOptions

open TableOption (all written lacking)

variable {state : PipelineState} {text lead named columns behind options rest :
  Text}
  {info : TableInfo} {create : Ddl.CreateTable}

theorem OptionsLine.not_shorter {others more : Text}
    (line : OptionsLine behind options rest)
    (other : OptionsLine behind others more) :
    ¬options.length < others.length := by
  intro shorter
  have stop : behind[options.length]? = rest.head? := by
    rw [line.split, List.getElem?_append_right (Nat.le_refl _), Nat.sub_self,
      List.head?_eq_getElem?]
  rcases line.ends with rfl | lineBreak | terminator
  · have lengths := congrArg List.length (line.split.symm.trans other.split)
    simp only [List.append_nil, List.length_append] at lengths
    omega
  · rw [lineBreak, other.split, List.getElem?_append_left shorter] at stop
    exact other.oneLine (List.mem_of_getElem? stop)
  · rw [other.noTerminator options.length shorter] at terminator
    exact Bool.false_ne_true terminator

theorem OptionsLine.unique {others more : Text}
    (line : OptionsLine behind options rest)
    (other : OptionsLine behind others more) : options = others := by
  have lengths : options.length = others.length :=
    Nat.le_antisymm (Nat.le_of_not_lt (other.not_shorter line))
      (Nat.le_of_not_lt (line.not_shorter other))
  exact (List.append_inj (line.split.symm.trans other.split) lengths).1

def optionMarks (text lead named columns options : Text) : List Marked :=
  ((({} : Lexer).marks text).drop (throughList lead named columns).length).take
    options.length

private theorem map_snd_optionMarks
    (creates : CreatesTable text lead named columns behind create)
    (line : OptionsLine behind options rest) :
    (optionMarks text lead named columns options).map Prod.snd = options := by
  have split := creates.text_eq
  rw [← throughList_append, line.split] at split
  rw [optionMarks, List.map_take, List.map_drop, Lexer.map_snd_marks, split,
    List.drop_left, List.take_left]

private theorem isChain_optionMarks (text lead named columns options : Text) :
    List.IsChain Seam (optionMarks text lead named columns options) :=
  ((Lexer.isChain_marks Lexer.quoting_start text).drop _).take _

/-- An option is added exactly if the options line does not mention it anywhere.
So it is added exactly if code does not set it, unless nothing in code sets it
and either a literal or a comment hides a mention or a comment splits one, but
not both. -/
theorem added_iff_not_mentioned
    (completes : Completes state text lead named columns behind info create)
    (line : OptionsLine behind options rest) :
    let marked := optionMarks text lead named columns options
    marked.map Prod.snd = options ∧ ∃ added : List TableOption,
      added.Sublist all ∧
      (apply state text).2 = throughList lead named columns ++
        (options.trimEnd ++ (added.flatMap (written info) ++
          behind.drop options.trimEnd.length)) ∧
      ∀ option : TableOption, (option.value? info).isSome = true →
        (option ∈ added ↔ ¬option.Mentioned options) ∧
        ((option ∈ added ↔ ¬option.Mentioned (marked.map shown)) ↔
          option.SetInCode marked ∨
          (option.Hidden marked ↔ option.Split marked)) := by
  intro marked
  have creates := completes.creates
  have optionsEq := map_snd_optionMarks creates line
  obtain ⟨_, found⟩ := optionsLine_optionsOf behind
  obtain rfl := found.unique line
  refine ⟨optionsEq, lacking (optionsOf behind) info, List.filter_sublist, ?_,
    ?_⟩
  · exact apply_text completes
  · intro option known
    have added : option ∈ lacking (optionsOf behind) info ↔
        ¬option.Mentioned (optionsOf behind) := by
      have member : option ∈ all := by cases option <;> decide
      rw [lacking, List.mem_filter, known, Bool.and_true, Bool.not_eq_true',
        ← TableOption.isSet_iff, Bool.not_eq_true]
      exact and_iff_right member
    refine ⟨added, ?_⟩
    have mentioned : option.Mentioned (optionsOf behind) ↔
        option.SetInCode marked ∨ option.Hidden marked := by
      rw [← TableOption.mentioned_iff, optionsEq]
    have inCode : option.Mentioned (marked.map shown) ↔
        option.SetInCode marked ∨ option.Split marked :=
      TableOption.mentioned_shown_iff option (isChain_optionMarks ..)
    rw [added, mentioned, inCode, not_iff_not]
    by_cases set : option.SetInCode marked
    · simp [set]
    · simp [set]

/-- The only table of the sample. -/
def innoTable : TableInfo where
  engine := some "InnoDB".toList
  collation := some "utf8mb4_bin".toList

theorem added_iff_not_mentioned_engine :
    let text := "CREATE TABLE t (a int) ENGINE=MyISAM COMMENT='x';\n".toList
    let behind := " ENGINE=MyISAM COMMENT='x';\n".toList
    let options := " ENGINE=MyISAM COMMENT='x'".toList
    ∃ named columns create rest,
      Completes innoState text [] named columns behind innoTable create ∧
      OptionsLine behind options rest ∧ ∃ added : List TableOption,
        (apply innoState text).2 = throughList [] named columns ++
          (options ++ (added.flatMap (written innoTable) ++ ";\n".toList)) ∧
        TableOption.engine ∉ added ∧ TableOption.collation ∈ added := by
  intro text behind options
  have created : Ddl.createTable? text =
      some ⟨none, "t".toList, " (a int)".toList ++ behind⟩ := by
    decide +kernel
  have found : innoState.catalog.resolve (some "db".toList) "t".toList =
      .found "db".toList innoTable := by decide +kernel
  obtain ⟨named, columns, completes⟩ := Completes.of_behindColumns?
    (by decide +kernel : splitStatement text = ([], text)) created
    (by decide +kernel : _ = some behind) (by decide) found rfl
  obtain ⟨rest, line⟩ := optionsLine_optionsOf behind
  have optionsEq : optionsOf behind = options := by decide +kernel
  rw [optionsEq] at line
  obtain ⟨-, added, -, result, decided⟩ :=
    added_iff_not_mentioned completes line
  refine ⟨named, columns, _, rest, completes, line, added, result, ?_, ?_⟩
  · intro member
    have mentioned := TableOption.isSet_iff.mp
      (by decide +kernel : TableOption.engine.isSet options = true)
    exact (decided .engine rfl).1.mp member mentioned
  · refine (decided .collation rfl).1.mpr fun mentioned => ?_
    have set := TableOption.isSet_iff.mpr mentioned
    revert set
    decide +kernel

/-- A comment on the table that names an engine. -/
def engineComment : Text :=
  "CREATE TABLE t (a int) COMMENT='was ENGINE=MyISAM';\n".toList

/-- The literal hides from the table that it has no engine. -/
theorem engine_hidden_by_literal :
    let named := "CREATE TABLE t ".toList
    let columns := "(a int".toList
    let options := " COMMENT='was ENGINE=MyISAM'".toList
    unitsOf engineComment = [⟨.statement, true, engineComment⟩] ∧
      (∃ create,
        Completes innoState engineComment [] named columns
          (options ++ ";\n".toList)
        innoTable create) ∧
      OptionsLine (options ++ ";\n".toList) options ";\n".toList ∧
      ¬TableOption.engine.Mentioned
        ((optionMarks engineComment [] named columns options).map shown) ∧
      (apply innoState engineComment).2 = throughList [] named columns ++
        (options ++
          " DEFAULT CHARSET=utf8mb4 COLLATE=utf8mb4_bin;\n".toList) := by
  intro named columns options
  refine ⟨by decide +kernel, ?_, ?_, ?_, by decide +kernel⟩
  · have created :
        Ddl.createTable?
          (named ++ (columns ++ ')' :: (options ++ ";\n".toList))) =
        some ⟨none, "t".toList,
          ' ' :: (columns ++ ')' :: (options ++ ";\n".toList))⟩ := by
      decide +kernel
    have found : innoState.catalog.resolve (some "db".toList) "t".toList =
        .found "db".toList innoTable := by decide +kernel
    have goesOn :
        behindColumns? (' ' :: (columns ++ ')' :: (options ++ ";\n".toList))) =
          some (options ++ ";\n".toList) := by decide +kernel
    obtain ⟨others, opens, list⟩ := behindColumns?_eq_some_iff.mp goesOn
    have opensHere :
        Text.trimStart (' ' :: (columns ++ ')' :: (options ++ ";\n".toList))) =
          columns ++ ')' :: (options ++ ";\n".toList) := by decide +kernel
    obtain rfl : columns = others :=
      List.append_cancel_right (opensHere.symm.trans opens)
    exact ⟨_, ⟨by decide +kernel, created, opensHere, list⟩, by decide,
      ⟨_, found⟩, rfl⟩
  · obtain ⟨rest, line⟩ := optionsLine_optionsOf (options ++ ";\n".toList)
    have optionsEq : optionsOf (options ++ ";\n".toList) = options := by
      decide +kernel
    rw [optionsEq] at line
    obtain rfl := List.append_cancel_left line.split
    exact line
  · intro mentioned
    have set := TableOption.isSet_iff.mpr mentioned
    revert set
    decide +kernel

/-- A comment splits a mention, and the option is added a second time. -/
example :
    (apply innoState "CREATE TABLE t (a int) ENGINE/**/=MyISAM;\n".toList).2 =
      ("CREATE TABLE t (a int) ENGINE/**/=MyISAM ENGINE=InnoDB " ++
        "DEFAULT CHARSET=utf8mb4 COLLATE=utf8mb4_bin;\n").toList := by
  decide +kernel

end TableOptions

end SqlDump
