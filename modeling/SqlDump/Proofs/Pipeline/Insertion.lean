import SqlDump.Proofs.Ddl.ColumnList
import SqlDump.Proofs.Guard.Lead
import SqlDump.Proofs.Pipeline.TableOption
import SqlDump.Proofs.Text.Trim

/-!
# Inserting table options

A `CREATE TABLE` statement whose table is known gets the options that it lacks
behind the last visible character of its options line.  What is inserted is read
as options again, and nothing in front of it is read differently, so a second
pass finds nothing to add.
-/

namespace SqlDump

/-- The unit creates a table.  Its statement names the table, has a list of
columns and goes on behind the parenthesis that closes the list. -/
structure CreatesTable (text lead named columns behind : Text)
    (create : Ddl.CreateTable) :
    Prop where
  split : splitStatement text = (lead, named ++ (columns ++ ')' :: behind))
  creates : Ddl.createTable? (named ++ (columns ++ ')' :: behind)) = some create
  opens : (create.rest).trimStart = columns ++ ')' :: behind
  list : ColumnList columns behind

/-- A unit through the parenthesis that closes the column list of its table. -/
def throughList (lead named columns : Text) : Text :=
  lead ++ (named ++ (columns ++ [')']))

theorem throughList_append (lead named columns rest : Text) :
    throughList lead named columns ++ rest =
      lead ++ (named ++ (columns ++ ')' :: rest)) := by
  simp [throughList]

/-- The known options are words. -/
def TableInfo.Words (info : TableInfo) : Prop :=
  ∀ value ∈ [info.engine, info.rowFormat, info.collation], ∀ word ∈ value,
    word ≠ [] ∧ ∀ character ∈ word, character.isAlphanum = true ∨
    character = '_'

namespace Catalog

def Words (catalog : Catalog) : Prop :=
  ∀ entry ∈ catalog.entries, entry.info.Words

variable {catalog : Catalog} {schema : Option Text} {table foundSchema : Text}
  {info : TableInfo}

theorem mem_of_resolve
    (found : catalog.resolve schema table = .found foundSchema info) :
    ∃ entry ∈ catalog.entries, entry.info = info := by
  unfold resolve at found
  split at found
  · split at found
    · next known =>
        obtain ⟨-, rfl⟩ := Lookup.found.inj found
        obtain ⟨entry, entryFound, infoEq⟩ := Option.map_eq_some_iff.mp known
        exact ⟨entry, List.mem_of_find?_eq_some entryFound, infoEq⟩
    · simp at found
  · split at found
    · simp at found
    · next entry only =>
        obtain ⟨-, rfl⟩ := Lookup.found.inj found
        have member : entry ∈ catalog.entries.filter (·.table == table) := by
          simp [only]
        exact ⟨entry, (List.mem_filter.mp member).1, rfl⟩
    · simp at found

end Catalog

namespace Ddl

variable {create : CreateTable}

/-- A statement that creates a table begins with a letter, which is a token of
the name. -/
theorem createTable?_begins {body : Text}
    (creates : createTable? body = some create) :
    ∃ head tail, body = head :: tail ∧ (head = 'C' ∨ head = 'c') := by
  obtain ⟨rest, tableFound, -⟩ := Option.bind_eq_some_iff.mp creates
  obtain ⟨behindTable, createFound, -⟩ := Option.bind_eq_some_iff.mp tableFound
  exact afterCreateTable?_begins createFound

/-- A statement that creates a table neither changes the schema nor drops a
view. -/
theorem createTable?_only {body : Text}
    (creates : createTable? body = some create) :
    useTarget? body = none ∧ dropViewTarget? body = none := by
  obtain ⟨head, tail, rfl, letter⟩ := createTable?_begins creates
  have same : foldLetter head = foldLetter 'C' := by
    rcases letter with rfl | rfl
    · rfl
    · rfl
  have noUse : afterWordBlanks? "USE".toList (head :: tail) = none :=
    afterWordBlanks?_of_ne (by rw [same]; decide)
  have noDrop : afterWordBlanks? "DROP".toList (head :: tail) = none :=
    afterWordBlanks?_of_ne (by rw [same]; decide)
  rw [useTarget?, noUse, dropViewTarget?, noDrop]
  exact ⟨rfl, rfl⟩

end Ddl

namespace CreatesTable

variable {text lead named columns behind : Text} {create : Ddl.CreateTable}

theorem text_eq (creates : CreatesTable text lead named columns behind create) :
    text = lead ++ (named ++ (columns ++ ')' :: behind)) := by
  have split := (splitStatement_spec text).1
  rwa [creates.split] at split

theorem behindColumns?_eq
    (creates : CreatesTable text lead named columns behind create) :
    TableOptions.behindColumns? create.rest = some behind :=
  TableOptions.behindColumns?_eq_some_iff.mpr ⟨columns, creates.opens,
    creates.list⟩

theorem found_behind
    (creates : CreatesTable text lead named columns behind create) :
    ((Ddl.createTable? (splitStatement text).2).bind fun create =>
      TableOptions.behindColumns? create.rest) = some behind := by
  rw [creates.split, creates.creates]
  exact creates.behindColumns?_eq

theorem of_behindColumns? {body : Text}
    (split : splitStatement text = (lead, body))
    (found : Ddl.createTable? body = some create)
    (goesOn : TableOptions.behindColumns? create.rest = some behind) :
    ∃ named columns, CreatesTable text lead named columns behind create := by
  obtain ⟨columns, opens, list⟩ :=
    TableOptions.behindColumns?_eq_some_iff.mp goesOn
  obtain ⟨named, bodyEq⟩ : columns ++ ')' :: behind <:+ body := by
    rw [← opens]
    exact (List.dropWhile_suffix _).trans
      (Ddl.readsTo_createTable? found).suffix
  subst bodyEq
  exact ⟨named, columns, split, found, opens, list⟩

theorem congr_behind
    (creates : CreatesTable text lead named columns behind create)
    (other : Text) :
    ∃ again, CreatesTable (lead ++ (named ++ (columns ++ ')' :: other))) lead
      named columns other
        again ∧ again.schema = create.schema ∧ again.table = create.table := by
  obtain ⟨split, found, opens, list⟩ := creates
  have textEq := (splitStatement_spec text).1
  rw [split] at textEq
  obtain ⟨inner, rfl⟩ := List.head?_eq_some_iff.mp list.opens
  obtain ⟨blanks, restEq, blank⟩ := trimStart_spec create.rest
  rw [opens] at restEq
  have foundAgain :=
    Ddl.createTable?_opener blank found restEq (inner ++ ')' :: other)
  refine ⟨_, ⟨?_, foundAgain, ?_, list.congr_behind other⟩, rfl, rfl⟩
  · obtain ⟨head, tail, bodyEq, letter⟩ := Ddl.createTable?_begins found
    cases named with
    | nil =>
        obtain rfl := (List.cons.inj bodyEq).1
        rcases letter with bracket | bracket <;> simp at bracket
    | cons first named =>
        obtain rfl := (List.cons.inj bodyEq).1
        rw [textEq] at split
        refine splitStatement_token (beginsToken_of_isAlpha ?_) split _
        rcases letter with rfl | rfl <;> rfl
  · exact Ddl.trimStart_of_isAllBlank blank _

/-- The parenthesis that closes the column list stands in code. -/
theorem reads (creates : CreatesTable text lead named columns behind create) :
    ∃ steps, Lexer.Reads {} text steps {} (columns ++ ')' :: behind) := by
  obtain ⟨-, -, leadRead⟩ := splitStatement_spec text
  rw [creates.split] at leadRead
  obtain ⟨leadSteps, toStatement⟩ := leadRead (by simp)
  obtain ⟨nameSteps, toRest⟩ := Ddl.readsTo_createTable? creates.creates
  obtain ⟨blankSteps, toList⟩ := Ddl.readsTo_trimStart create.rest
  rw [creates.opens] at toList
  rw [← creates.text_eq] at toStatement
  exact ⟨_, (toStatement.trans toRest).trans toList⟩

end CreatesTable

namespace TableOption

variable {info : TableInfo} {options : Text} {option : TableOption}

private theorem mem_written (words : info.Words) {character : Char}
    (member : character ∈ option.written info) :
    character.isAlphanum = true ∨ character ∈ [' ', '=', '_'] := by
  have ofWord (value : Option Text)
      (known : value ∈ [info.engine, info.rowFormat, info.collation])
      {word : Text} (valueEq : value = some word) (inWord : character ∈ word) :
      character.isAlphanum = true ∨ character ∈ [' ', '=', '_'] := by
    rcases (words value known word valueEq).2 character inWord with letter | rfl
    · exact .inl letter
    · exact .inr (by decide)
  rcases List.mem_append.mp member with inLabel | inValue
  · have labels : all.all (fun option => option.label.all fun character =>
        character.isAlphanum || [' ', '=', '_'].contains character) = true := by
          decide
    have allOptions : option ∈ all := by cases option <;> decide
    have one :=
      List.all_eq_true.mp (List.all_eq_true.mp labels option allOptions) _
        inLabel
    simpa using one
  · cases valueEq : option.value? info with
    | none => simp [valueEq] at inValue
    | some value =>
        rw [valueEq, Option.getD_some] at inValue
        cases option with
        | engine => exact ofWord info.engine (by simp) valueEq inValue
        | rowFormat => exact ofWord info.rowFormat (by simp) valueEq inValue
        | charset =>
            obtain ⟨collation, collationEq, rfl⟩ :=
              Option.map_eq_some_iff.mp valueEq
            exact ofWord info.collation (by simp) collationEq
              (List.takeWhile_subset _ inValue)
        | collation => exact ofWord info.collation (by simp) valueEq inValue

theorem written_eq_space (info : TableInfo) (option : TableOption) :
    ∃ tail, option.written info = ' ' :: tail := by
  obtain ⟨words, labelled⟩ : ∃ words, option.label = ' ' :: words := by
    cases option <;> exact ⟨_, rfl⟩
  rw [written, labelled]
  exact ⟨_, rfl⟩

theorem additions_eq_nil_iff :
    TableOptions.additions options info = [] ↔ lacking options info = [] := by
  rw [additions_eq, List.flatMap_eq_nil_iff]
  constructor
  · intro nothing
    apply List.eq_nil_iff_forall_not_mem.mpr
    intro option member
    obtain ⟨tail, begins⟩ := written_eq_space info option
    exact List.cons_ne_nil ' ' tail (begins.symm.trans (nothing option member))
  · intro nothing
    simp [nothing]

end TableOption

namespace TableOptions

open TableOption (lacking written all)

variable {info : TableInfo} {behind : Text}

/-- The options line without the blanks at its end. -/
def keptOptions (behind : Text) : Text :=
  (optionsOf behind).trimEnd

def afterOptions (behind : Text) : Text :=
  behind.drop (keptOptions behind).length

/-- What is written for the options that the line lacks. -/
def insertion (info : TableInfo) (behind : Text) : Text :=
  (lacking (optionsOf behind) info).flatMap (written info)

/-- What follows a column list, with the options that it lacks. -/
def completed (info : TableInfo) (behind : Text) : Text :=
  keptOptions behind ++ (insertion info behind ++ afterOptions behind)

theorem options_parts (behind : Text) :
    ∃ blanks rest, behind = keptOptions behind ++ (blanks ++ rest) ∧
      afterOptions behind = blanks ++ rest ∧
        optionsOf behind = keptOptions behind ++ blanks ∧
      blanks.isAllBlank = true ∧
        OptionsLine (keptOptions behind ++ (blanks ++ rest))
        (keptOptions behind ++ blanks) rest := by
  obtain ⟨rest, line⟩ := optionsLine_optionsOf behind
  obtain ⟨optionsEq, blank⟩ := Text.trimEnd_append_drop (optionsOf behind)
  generalize blanksEq :
    (optionsOf behind).drop (optionsOf behind).trimEnd.length = blanks
    at optionsEq blank
  have split : behind = keptOptions behind ++ (blanks ++ rest) := by
    rw [← List.append_assoc, keptOptions, ← optionsEq]
    exact line.split
  refine ⟨blanks, rest, split, ?_, optionsEq, List.all_eq_true.mpr blank, ?_⟩
  · rw [afterOptions]
    exact (congrArg (List.drop (keptOptions behind).length) split).trans
      List.drop_left
  · rw [← split, keptOptions, ← optionsEq]
    exact line

theorem keptOptions_append (behind : Text) :
    keptOptions behind ++ afterOptions behind = behind := by
  obtain ⟨blanks, rest, split, afterEq, -⟩ := options_parts behind
  rw [afterEq]
  exact split.symm

private theorem oneLine_keptOptions (behind : Text) :
    '\n' ∉ keptOptions behind := by
  obtain ⟨blanks, rest, -, -, -, -, line⟩ := options_parts behind
  exact fun member => line.oneLine (List.mem_append_left _ member)

theorem completed_of_lacking (nothing : lacking (optionsOf behind) info = []) :
    completed info behind = behind := by
  rw [completed, insertion, nothing]
  exact keptOptions_append behind

theorem mem_insertion (words : info.Words) {character : Char}
    (member : character ∈ insertion info behind) :
    character.isAlphanum = true ∨ character ∈ [' ', '=', '_'] := by
  obtain ⟨option, -, inOption⟩ := List.mem_flatMap.mp member
  exact TableOption.mem_written words inOption

theorem insertion_eq_space (something : lacking (optionsOf behind) info ≠ []) :
    ∃ tail, insertion info behind = ' ' :: tail := by
  obtain ⟨first, others, lackingEq⟩ := List.exists_cons_of_ne_nil something
  obtain ⟨tail, begins⟩ := TableOption.written_eq_space info first
  rw [insertion, lackingEq, List.flatMap_cons, begins]
  exact ⟨_, rfl⟩

private theorem lacking_completed (words : info.Words) (behind : Text) :
    lacking (optionsOf (completed info behind)) info = [] := by
  by_cases nothing : lacking (optionsOf behind) info = []
  · rwa [completed_of_lacking nothing]
  obtain ⟨blanks, rest, split, afterEq, optionsEq, blank, line⟩ :=
    options_parts behind
  have plain {character : Char} (notWritten : character.isAlphanum = false)
      (notMark : character ∉ [' ', '=', '_']) :
      character ∉ insertion info behind := by
    intro member
    rcases mem_insertion words member with letter | mark
    · exact absurd (notWritten.symm.trans letter) Bool.false_ne_true
    · exact notMark mark
  obtain ⟨more, newOptions⟩ := prefix_optionsOf line
    (plain rfl (by decide) : '\n' ∉ insertion info behind)
    (plain rfl (by decide) : ';' ∉ insertion info behind)
  rw [← afterEq, ← completed, List.append_assoc] at newOptions
  rw [lacking, List.filter_eq_nil_iff]
  intro option member isLacking
  obtain ⟨missing, known⟩ := Bool.and_eq_true_iff.mp isLacking
  apply Bool.eq_false_iff.mp (Bool.not_eq_true' _ ▸ missing)
  rw [TableOption.isSet_iff, ← newOptions]
  cases set : option.isSet (optionsOf behind) with
  | true =>
      have mentioned := TableOption.isSet_iff.mp set
      rw [optionsEq] at mentioned
      -- What is inserted begins with a space, so it does not go on with a word.
      obtain ⟨tail, begins⟩ := insertion_eq_space nothing
      rw [begins]
      exact mentioned.before_space blank (tail ++ more)
  | false =>
      have written : option ∈ lacking (optionsOf behind) info :=
        List.mem_filter.mpr ⟨member, by rw [set, known]; rfl⟩
      obtain ⟨before, after, lackingEq⟩ := List.append_of_mem written
      have insertionEq : insertion info behind =
          before.flatMap (TableOption.written info) ++
          (option.written info ++
            after.flatMap (TableOption.written info)) := by
        rw [insertion, lackingEq, List.flatMap_append, List.flatMap_cons]
      have mentioned := TableOption.mentioned_written
        (keptOptions behind ++ before.flatMap (TableOption.written info)) info
          option
        (after.flatMap (TableOption.written info) ++ more)
      rw [insertionEq]
      simpa only [List.append_assoc] using mentioned

variable {text lead named columns body rest : Text} {create : Ddl.CreateTable}
  {state : PipelineState} {schema : Text}

private theorem complete?_eq {front : Text}
    (goesOn : behindColumns? rest = some behind)
    (split : body = front ++ behind) :
    complete? body rest info =
      if lacking (optionsOf behind) info = [] then none
      else some (front ++ completed info behind) := by
  have place : body.length - behind.length + (optionsOf behind).trimEnd.length =
      (front ++ keptOptions behind).length := by
    rw [split, List.length_append, List.length_append, Nat.add_sub_cancel]
    rfl
  have parts : body = (front ++ keptOptions behind) ++ afterOptions behind := by
    rw [List.append_assoc, keptOptions_append, split]
  unfold complete?
  rw [goesOn]
  dsimp only
  split
  · next nothing => rw [if_pos (TableOption.additions_eq_nil_iff.mp nothing)]
  · next something =>
      rw [if_neg fun nothing =>
        something (TableOption.additions_eq_nil_iff.mpr nothing),
        place, TableOption.additions_eq, parts, List.take_left, List.drop_left,
        completed, insertion]
      simp only [List.append_assoc]

/-- The unit creates a table that is known and is no placeholder. -/
structure Completes (state : PipelineState)
    (text lead named columns behind : Text) (info : TableInfo)
    (create : Ddl.CreateTable) : Prop where
  creates : CreatesTable text lead named columns behind create
  unmarked : create.table ∉ state.placeholders
  found : ∃ schema, state.catalog.resolve (create.schema.or state.schema)
    create.table =
    .found schema info
  known : info.missing = []

theorem apply_of_create
    (creates : Ddl.createTable? (splitStatement text).2 = some create) :
    apply state text =
      if create.table ∈ state.placeholders then
        (state.dropPlaceholder create.table, text)
      else if state.catalog.isEmpty then (state, text)
      else augment state (splitStatement text).1 (splitStatement text).2
        create := by
  obtain ⟨noUse, noDrop⟩ := Ddl.createTable?_only creates
  unfold apply
  dsimp only
  rw [noUse, noDrop, creates]
  simp only [List.contains_iff_mem]

/-- The table gets the options that it lacks. -/
theorem apply_completes
    (completes : Completes state text lead named columns behind info create) :
    apply state text =
      if lacking (optionsOf behind) info = [] then (state, text)
      else
        ({ state with
            counts := { state.counts with
              tablesAugmented := state.counts.tablesAugmented + 1 } },
          lead ++ (named ++ (columns ++ ')' :: completed info behind))) := by
  obtain ⟨creates, unmarked, ⟨schema, found⟩, known⟩ := completes
  have createFound : Ddl.createTable? (splitStatement text).2 =
      some create := by
    rw [creates.split]
    exact creates.creates
  have notEmpty : state.catalog.isEmpty = false := by
    obtain ⟨entry, member, -⟩ := Catalog.mem_of_resolve found
    rw [Catalog.isEmpty, List.isEmpty_eq_false_iff]
    exact List.ne_nil_of_mem member
  have split : named ++ (columns ++ ')' :: behind) =
      (named ++ (columns ++ [')'])) ++ behind := by
    simp
  rw [apply_of_create createFound, if_neg unmarked, notEmpty,
    if_neg Bool.false_ne_true, creates.split, augment, found]
  dsimp only
  rw [known]
  dsimp only
  rw [complete?_eq creates.behindColumns?_eq split]
  by_cases nothing : lacking (optionsOf behind) info = []
  · rw [if_pos nothing, if_pos nothing, ← creates.text_eq]
  · rw [if_neg nothing, if_neg nothing]
    simp

theorem Completes.of_behindColumns? (split : splitStatement text = (lead, body))
    (created : Ddl.createTable? body = some create)
    (goesOn : behindColumns? create.rest = some behind)
    (unmarked : create.table ∉ state.placeholders)
    (found : state.catalog.resolve (create.schema.or state.schema)
        create.table = .found schema info) (known : info.missing = []) :
    ∃ named columns, Completes state text lead named columns behind info
      create := by
  obtain ⟨named, columns, creates⟩ :=
    CreatesTable.of_behindColumns? split created goesOn
  exact ⟨named, columns, creates, unmarked, ⟨schema, found⟩, known⟩

private theorem augment_other (textEq : text = lead ++ body)
    (other : ∀ schema info behind,
      state.catalog.resolve (create.schema.or state.schema) create.table =
        .found schema info → info.missing = [] →
        behindColumns? create.rest ≠ some behind) :
    (augment state lead body create).2 = text ∧
      (augment state lead body create).1.counts = state.counts := by
  unfold augment
  dsimp only
  split
  · exact ⟨textEq.symm, rfl⟩
  · exact ⟨textEq.symm, rfl⟩
  · next schema info found =>
      split
      · next known =>
          have incomplete : complete? body create.rest info = none := by
            unfold complete?
            split
            · rfl
            · next behind goesOn =>
                exact absurd goesOn (other schema info behind found known)
          rw [incomplete]
          exact ⟨textEq.symm, rfl⟩
      · exact ⟨textEq.symm, rfl⟩

/-- Any other unit is left as it is; at most the state takes note of it. -/
theorem apply_other (other : ∀ lead named columns behind info create,
      ¬Completes state text lead named columns behind info create) :
    (apply state text).2 = text ∧
      (apply state text).1.counts = state.counts := by
  have textEq := (splitStatement_spec text).1
  unfold apply
  generalize split : splitStatement text = parts at textEq
  obtain ⟨lead, body⟩ := parts
  dsimp only
  split
  · exact ⟨rfl, rfl⟩
  · split
    · refine ⟨rfl, ?_⟩
      unfold PipelineState.markPlaceholder
      split <;> rfl
    · split
      · exact ⟨rfl, rfl⟩
      · next create found =>
          split
          · exact ⟨rfl, rfl⟩
          · next notMarked =>
              split
              · exact ⟨rfl, rfl⟩
              · refine augment_other textEq
                  fun schema info behind resolved known goesOn => ?_
                obtain ⟨named, columns, completes⟩ :=
                  Completes.of_behindColumns? split found
                  goesOn (by simpa using notMarked) resolved known
                exact other lead named columns behind info create completes

theorem apply_text
    (completes : Completes state text lead named columns behind info create) :
    (apply state text).2 = throughList lead named columns ++
      completed info behind := by
  rw [throughList_append, apply_completes completes]
  by_cases nothing : lacking (optionsOf behind) info = []
  · rw [if_pos nothing, completed_of_lacking nothing]
    exact completes.creates.text_eq
  · rw [if_neg nothing]

/-- A unit that is changed gets what its table lacks. -/
theorem exists_completes (changed : (apply state text).2 ≠ text) :
    ∃ lead named columns behind info create,
      Completes state text lead named columns behind info create ∧
      lacking (optionsOf behind) info ≠ [] := by
  by_cases some : ∃ lead named columns behind info create,
      Completes state text lead named columns behind info create
  · obtain ⟨lead, named, columns, behind, info, create, completes⟩ := some
    refine ⟨lead, named, columns, behind, info, create, completes,
      fun nothing => changed ?_⟩
    rw [apply_completes completes, if_pos nothing]
  · have kept :=
      apply_other fun lead named columns behind info create completes =>
      some ⟨lead, named, columns, behind, info, create, completes⟩
    exact absurd kept.1 changed

theorem augment_remembers (state : PipelineState) (lead body : Text)
    (create : Ddl.CreateTable) :
    (augment state lead body create).1.catalog = state.catalog ∧
      (augment state lead body create).1.schema = state.schema ∧
      (augment state lead body create).1.placeholders = state.placeholders := by
  unfold augment
  dsimp only
  split
  · exact ⟨rfl, rfl, rfl⟩
  · exact ⟨rfl, rfl, rfl⟩
  · split
    · split <;> exact ⟨rfl, rfl, rfl⟩
    · exact ⟨rfl, rfl, rfl⟩

/-- A statement that creates a table leaves everything that decides on it as it
is. -/
theorem apply_context
    (found : Ddl.createTable? (splitStatement text).2 = some create)
    (unmarked : create.table ∉ state.placeholders) :
    (apply state text).1.catalog = state.catalog ∧
      (apply state text).1.schema = state.schema ∧
      (apply state text).1.placeholders = state.placeholders := by
  rw [apply_of_create found, if_neg unmarked]
  split
  · exact ⟨rfl, rfl, rfl⟩
  · exact augment_remembers state _ _ create

/-- The unit creates no table that is marked as the placeholder of a view. -/
def Unmarked (state : PipelineState) (text : Text) : Prop :=
  ∀ create, Ddl.createTable? (splitStatement text).2 = some create →
    create.table ∉ state.placeholders

theorem Completes.of_apply (unmarked : Unmarked state text)
    (completes : Completes (apply state text).1 text lead named columns behind
        info create) :
    Completes state text lead named columns behind info create := by
  obtain ⟨creates, -, ⟨schema, found⟩, known⟩ := completes
  have createFound : Ddl.createTable? (splitStatement text).2 =
      some create := by
    rw [creates.split]
    exact creates.creates
  have notMarked := unmarked create createFound
  obtain ⟨sameCatalog, sameSchema, -⟩ := apply_context createFound notMarked
  rw [sameCatalog, sameSchema] at found
  exact ⟨creates, notMarked, ⟨schema, found⟩, known⟩

/-- In the completed unit the same table is complete. -/
theorem Completes.again
    (completes : Completes state text lead named columns behind info create)
    (other : Text) (counts : StageCounts) :
    ∃ again, Completes { state with counts := counts }
      (lead ++ (named ++ (columns ++ ')' :: other))) lead named columns other
        info again := by
  obtain ⟨creates, unmarked, ⟨schema, found⟩, known⟩ := completes
  obtain ⟨again, createsAgain, sameSchema, sameTable⟩ :=
    creates.congr_behind other
  refine ⟨again, createsAgain, ?_, ⟨schema, ?_⟩, known⟩
  · rw [sameTable]
    exact unmarked
  · rw [sameSchema, sameTable]
    exact found

theorem Completes.words (words : state.catalog.Words)
    (completes : Completes state text lead named columns behind info create) :
    info.Words := by
  obtain ⟨schema, found⟩ := completes.found
  obtain ⟨entry, member, rfl⟩ := Catalog.mem_of_resolve found
  exact words entry member

private theorem apply_again (words : info.Words)
    (completes : Completes state text lead named columns behind info create) :
    apply (apply state text).1 (apply state text).2 = apply state text := by
  have applied := apply_completes completes
  by_cases nothing : lacking (optionsOf behind) info = []
  · rw [if_pos nothing] at applied
    rw [applied]
    exact applied
  · rw [if_neg nothing] at applied
    obtain ⟨again, completesAgain⟩ := completes.again (completed info behind)
      { state.counts with tablesAugmented := state.counts.tablesAugmented + 1 }
    rw [applied]
    exact (apply_completes completesAgain).trans
      (if_pos (lacking_completed words behind))

/-- A unit is left as it is, or one run of options is inserted behind the column
list of its table and on the line where the list ends.  A second pass changes
nothing and counts nothing. -/
theorem apply_inserts_once (state : PipelineState) (text : Text)
    (words : state.catalog.Words) (unmarked : Unmarked state text) :
    let once := apply state text
    let twice := apply once.1 once.2
    (once.2 = text ∨ ∃ lead named columns kept rest info create options,
        Completes state text lead named columns (kept ++ rest) info create ∧
        '\n' ∉ kept ∧
        options ≠ [] ∧ options.Sublist all ∧
        (∀ option ∈ options, (option.value? info).isSome = true) ∧
        text = lead ++ (named ++ (columns ++ ')' :: (kept ++ rest))) ∧
        once.2 = lead ++ (named ++ (columns ++ ')' ::
          (kept ++ (options.flatMap (written info) ++ rest))))) ∧
      twice.2 = once.2 ∧ twice.1.counts = once.1.counts := by
  intro once twice
  by_cases some : ∃ lead named columns behind info create,
      Completes state text lead named columns behind info create
  · obtain ⟨lead, named, columns, behind, info, create, completes⟩ := some
    have twiceEq : twice = once := apply_again (completes.words words) completes
    refine ⟨?_, by rw [twiceEq], by rw [twiceEq]⟩
    by_cases nothing : lacking (optionsOf behind) info = []
    · exact .inl
        (congrArg Prod.snd ((apply_completes completes).trans (if_pos nothing)))
    · have parts := keptOptions_append behind
      refine .inr ⟨lead, named, columns, keptOptions behind,
        afterOptions behind, info, create,
        lacking (optionsOf behind) info, ?_, oneLine_keptOptions behind,
          nothing,
        List.filter_sublist, ?_, ?_, ?_⟩
      · rw [parts]
        exact completes
      · intro option member
        exact (Bool.and_eq_true_iff.mp (List.mem_filter.mp member).2).2
      · rw [parts]
        exact completes.creates.text_eq
      · exact congrArg Prod.snd
          ((apply_completes completes).trans (if_neg nothing))
  · have none : ∀ lead named columns behind info create,
        ¬Completes state text lead named columns behind info create :=
      fun lead named columns behind info create completes =>
        some ⟨lead, named, columns, behind, info, create, completes⟩
    have onceText : once.2 = text := (apply_other none).1
    have twiceEq : twice = apply once.1 text := congrArg (apply once.1) onceText
    obtain ⟨sameText, sameCounts⟩ : (apply once.1 text).2 = text ∧
        (apply once.1 text).1.counts = once.1.counts :=
      apply_other fun lead named columns behind info create completes =>
        none lead named columns behind info create (completes.of_apply unmarked)
    rw [twiceEq, sameText, sameCounts]
    exact ⟨.inl onceText, onceText.symm, rfl⟩

/-- One known table, and the mark of a view with another name. -/
def innoState : PipelineState where
  catalog := ⟨[⟨"db".toList, "t".toList,
    { engine := some "InnoDB".toList,
      collation := some "utf8mb4_bin".toList }⟩]⟩
  schema := some "db".toList
  placeholders := ["v".toList]

theorem words_innoState : innoState.catalog.Words := by
  intro entry member value known word valueEq
  obtain rfl := List.mem_singleton.mp member
  have letters : [some "InnoDB".toList, none, some "utf8mb4_bin".toList].all
      (fun value : Option Text => value.all fun word => !word.isEmpty &&
        word.all fun character =>
        character.isAlphanum || character == '_') = true := by decide
  have word := List.all_eq_true.mp letters value known
  rw [valueEq] at word
  simpa using word

theorem apply_inserts_once_engine :
    let text := "CREATE TABLE t (a int);\n".toList
    let once := apply innoState text
    innoState.catalog.Words ∧ Unmarked innoState text ∧
      once.2 =
        ("CREATE TABLE t (a int) ENGINE=InnoDB DEFAULT CHARSET=utf8mb4 " ++
        "COLLATE=utf8mb4_bin;\n").toList ∧
      (apply once.1 once.2).2 = once.2 ∧
        (apply once.1 once.2).1.counts.tablesAugmented = 1 := by
  intro text once
  have unmarked : Unmarked innoState text := by
    intro create created
    have named : Ddl.createTable? (splitStatement text).2 =
        some ⟨none, "t".toList, " (a int);\n".toList⟩ := by decide +kernel
    rw [created] at named
    obtain rfl := Option.some.inj named
    decide
  obtain ⟨-, same, sameCounts⟩ :=
    apply_inserts_once innoState text words_innoState unmarked
  refine ⟨words_innoState, unmarked, by decide +kernel, same, ?_⟩
  rw [sameCounts]
  decide +kernel

end TableOptions

end SqlDump
