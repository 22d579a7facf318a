import SqlDump.Proofs.Pipeline.Insertion
import SqlDump.Proofs.Session.Streaming

/-!
# What the tables of a dump are looked up by

Two pieces of state outlive a unit: the schema in force and the views that wait
for their placeholder.  Both are told by the units that passed: the schema is
the one of the last `USE`, and a view waits if it was dropped and no table of
its name was created since.  A statement that creates a table is left out,
reported or completed by these two and the catalog alone.
-/

namespace SqlDump

namespace Ddl

/-- A statement that changes the schema drops no view. -/
theorem dropViewTarget?_of_use {body schema : Text}
    (uses : useTarget? body = some schema) :
    dropViewTarget? body = none := by
  obtain ⟨behindUse, wordFound, -⟩ := Option.bind_eq_some_iff.mp uses
  obtain ⟨behindWord, letters, -⟩ := Option.bind_eq_some_iff.mp wordFound
  obtain ⟨head, tail, rfl, same, -⟩ := afterWord?_cons letters
  have noDrop : afterWordBlanks? "DROP".toList (head :: tail) = none :=
    afterWordBlanks?_of_ne (by rw [same]; decide)
  rw [dropViewTarget?, noDrop]
  rfl

end Ddl

namespace StatementUnit

/-- The statement of a unit behind its lead; a directive has none. -/
def statement? (unit : StatementUnit) : Option Text :=
  if unit.kind = .directive then none else some (splitStatement unit.text).2

def usedSchema? (unit : StatementUnit) : Option Text :=
  unit.statement?.bind Ddl.useTarget?

def droppedView? (unit : StatementUnit) : Option Text :=
  unit.statement?.bind Ddl.dropViewTarget?

def createdTable? (unit : StatementUnit) : Option Ddl.CreateTable :=
  unit.statement?.bind Ddl.createTable?

def Creates (unit : StatementUnit) (name : Text) : Prop :=
  ∃ create ∈ unit.createdTable?, create.table = name

end StatementUnit

/-- The schema in force behind the units, if `start` is the one in front of
them. -/
def schemaBehind (start : Option Text) (units : List StatementUnit) :
    Option Text :=
  (units.filterMap StatementUnit.usedSchema?).getLast?.or start

/-- The view was dropped, and since then no table of its name was created. -/
def ViewWaits (units : List StatementUnit) (name : Text) : Prop :=
  ∃ before drop between, units = before ++ drop :: between ∧
  drop.droppedView? = some name ∧
    ∀ unit ∈ between, ¬unit.Creates name

section Units

variable {start : Option Text} {units : List StatementUnit}
  {unit : StatementUnit} {name : Text}

private theorem schemaBehind_concat :
    schemaBehind start (units ++ [unit]) =
      unit.usedSchema?.or (schemaBehind start units) := by
  unfold schemaBehind
  cases used : unit.usedSchema? with
  | none => simp [used]
  | some schema => simp [used]

private theorem not_viewWaits_nil : ¬ViewWaits [] name := by
  rintro ⟨before, drop, between, split, -⟩
  simp at split

theorem viewWaits_concat :
    ViewWaits (units ++ [unit]) name ↔
      unit.droppedView? = some name ∨ ViewWaits units name ∧
      ¬unit.Creates name := by
  constructor
  · rintro ⟨before, drop, between, split, drops, none⟩
    rcases List.eq_nil_or_concat between with rfl | ⟨between, last, rfl⟩
    · obtain ⟨-, same⟩ := List.append_inj' split rfl
      obtain rfl := List.singleton_inj.mp same
      exact .inl drops
    · rw [List.concat_eq_append, ← List.cons_append, ← List.append_assoc]
        at split
      obtain ⟨unitsEq, same⟩ := List.append_inj' split rfl
      obtain rfl := List.singleton_inj.mp same
      rw [List.concat_eq_append] at none
      refine .inr ⟨⟨before, drop, between, unitsEq, drops, ?_⟩,
        none unit (by simp)⟩
      intro other member
      exact none other (List.mem_append_left _ member)
  · rintro (drops | ⟨⟨before, drop, between, rfl, drops, none⟩, plain⟩)
    · exact ⟨units, unit, [], rfl, drops, List.forall_mem_nil _⟩
    · refine ⟨before, drop, between ++ [unit], by simp, drops, ?_⟩
      intro other member
      rcases List.mem_append.mp member with earlier | last
      · exact none other earlier
      · obtain rfl := List.mem_singleton.mp last
        exact plain

end Units

theorem TableOptions.apply_nil (state : PipelineState) :
    apply state [] = (state, []) := by
  obtain ⟨noLead, noBody⟩ :=
    List.append_eq_nil_iff.mp (splitStatement_spec []).1.symm
  unfold apply
  dsimp only
  rw [noBody]
  rfl

/-- What is written for a statement that creates a table, and what is reported.
The table is looked up in `schema`; `waits` says that a view of its name waits
for its placeholder. -/
inductive CreateOutcome (catalog : Catalog) (schema : Option Text)
    (waits : Prop) (text : Text) (create : Ddl.CreateTable) :
    Text → List Warning → Prop where
  | exempt (placeholder : waits) :
      CreateOutcome catalog schema waits text create text []
  | noCatalog (plain : ¬waits) (empty : catalog.isEmpty = true) :
      CreateOutcome catalog schema waits text create text []
  | missing (plain : ¬waits) (known : catalog.isEmpty = false)
      (lookup : catalog.resolve schema create.table = .missing) :
      CreateOutcome catalog schema waits text create text
        [.missingTable schema create.table]
  | ambiguous {candidates : Nat} (plain : ¬waits)
      (lookup : catalog.resolve schema create.table = .ambiguous candidates) :
      CreateOutcome catalog schema waits text create text
        [.ambiguousTable create.table candidates]
  | incomplete {foundSchema : Text} {info : TableInfo} (plain : ¬waits)
      (lookup : catalog.resolve schema create.table = .found foundSchema info)
      (lacks : info.missing ≠ []) :
      CreateOutcome catalog schema waits text create text
        [.incompleteTable (schema.getD []) create.table info.missing]
  | known {foundSchema : Text} {info : TableInfo} (plain : ¬waits)
      (lookup : catalog.resolve schema create.table = .found foundSchema info)
      (complete : info.missing = []) :
      CreateOutcome catalog schema waits text create
        ((splitStatement text).1 ++
          (TableOptions.complete? (splitStatement text).2 create.rest info).getD
            (splitStatement text).2) []

namespace TableOptions

variable {state : PipelineState} {text : Text} {create : Ddl.CreateTable}

/-- What the stage does with the state apart from the log and the counts. -/
structure Remembers (state after : PipelineState) (body : Text) : Prop where
  catalog : after.catalog = state.catalog
  schema : after.schema = (Ddl.useTarget? body).or state.schema
  placeholders : ∀ name, name ∈ after.placeholders ↔
    Ddl.dropViewTarget? body = some name ∨
      name ∈ state.placeholders ∧ ∀ create ∈ Ddl.createTable? body,
        create.table ≠ name

private theorem markPlaceholder_remembers (state : PipelineState)
    (view : Text) :
    (state.markPlaceholder view).catalog = state.catalog ∧
      (state.markPlaceholder view).schema = state.schema ∧
      ∀ name, name ∈ (state.markPlaceholder view).placeholders ↔
        view = name ∨ name ∈ state.placeholders := by
  unfold PipelineState.markPlaceholder
  split
  · next marked =>
      refine ⟨rfl, rfl, fun name => ⟨.inr, ?_⟩⟩
      rintro (rfl | earlier)
      · exact marked
      · exact earlier
  · exact ⟨rfl, rfl, fun name => by simp [or_comm, eq_comm]⟩

private theorem mem_dropPlaceholder {view name : Text} :
    name ∈ (state.dropPlaceholder view).placeholders ↔
      name ∈ state.placeholders ∧ view ≠ name := by
  simp [PipelineState.dropPlaceholder, ne_comm]

private theorem apply_create_remembers (state : PipelineState)
    (creates : Ddl.createTable? (splitStatement text).2 = some create) :
    (apply state text).1.catalog = state.catalog ∧
      (apply state text).1.schema = state.schema ∧
      ∀ name, name ∈ (apply state text).1.placeholders ↔
        name ∈ state.placeholders ∧ create.table ≠ name := by
  rw [apply_of_create creates]
  by_cases waits : create.table ∈ state.placeholders
  · rw [if_pos waits]
    exact ⟨rfl, rfl, fun name => mem_dropPlaceholder⟩
  · rw [if_neg waits]
    have plain (name : Text) : name ∈ state.placeholders ↔
        name ∈ state.placeholders ∧ create.table ≠ name := by
      rw [iff_self_and]
      rintro marked rfl
      exact waits marked
    split
    · exact ⟨rfl, rfl, plain⟩
    · obtain ⟨sameCatalog, sameSchema, same⟩ := augment_remembers state
        (splitStatement text).1 (splitStatement text).2 create
      rw [same]
      exact ⟨sameCatalog, sameSchema, plain⟩

theorem apply_remembers (state : PipelineState) (text : Text) :
    Remembers state (apply state text).1 (splitStatement text).2 := by
  cases creates : Ddl.createTable? (splitStatement text).2 with
  | some create =>
      obtain ⟨noUse, noDrop⟩ := Ddl.createTable?_only creates
      obtain ⟨sameCatalog, sameSchema, marks⟩ :=
        apply_create_remembers state creates
      refine ⟨sameCatalog, by rw [noUse]; exact sameSchema, fun name => ?_⟩
      rw [marks]
      simp [noDrop, creates]
  | none =>
      unfold apply
      dsimp only
      split
      · next schema uses =>
          have noDrop := Ddl.dropViewTarget?_of_use uses
          exact ⟨rfl, by rw [uses]; rfl, by simp [noDrop, creates]⟩
      · next noUse =>
          split
          · next view drops =>
              obtain ⟨sameCatalog, sameSchema, marks⟩ :=
                markPlaceholder_remembers state view
              refine ⟨sameCatalog, by rw [noUse]; exact sameSchema,
                fun name => ?_⟩
              rw [marks]
              simp [drops, creates]
          · next noDrop =>
              rw [creates]
              exact ⟨rfl, by rw [noUse]; rfl, by simp [noDrop, creates]⟩

/-- A statement that creates a table, by what is known about it. -/
theorem apply_outcome (state : PipelineState)
    (creates : Ddl.createTable? (splitStatement text).2 = some create) :
    ∃ raised,
      CreateOutcome state.catalog (create.schema.or state.schema)
        (create.table ∈ state.placeholders) text create (apply state text).2
          raised ∧
      (apply state text).1.log = state.log.addAll raised := by
  have textEq := (splitStatement_spec text).1.symm
  rw [apply_of_create creates]
  by_cases waits : create.table ∈ state.placeholders
  · rw [if_pos waits]
    exact ⟨[], .exempt waits, rfl⟩
  rw [if_neg waits]
  cases empty : state.catalog.isEmpty with
  | true => exact ⟨[], .noCatalog waits empty, rfl⟩
  | false =>
      rw [if_neg Bool.false_ne_true]
      unfold augment
      dsimp only
      rw [textEq]
      split
      · next lookup => exact ⟨_, .missing waits empty lookup, rfl⟩
      · next candidates lookup => exact ⟨_, .ambiguous waits lookup, rfl⟩
      · next foundSchema info lookup =>
          split
          · next complete =>
              have outcome :
                  CreateOutcome state.catalog (create.schema.or state.schema)
                  (create.table ∈ state.placeholders) text create _ [] :=
                .known waits lookup complete
              split
              · next nothing =>
                  rw [nothing, Option.getD_none, textEq] at outcome
                  exact ⟨[], outcome, rfl⟩
              · next completed something =>
                  rw [something, Option.getD_some] at outcome
                  exact ⟨[], outcome, rfl⟩
          · next lacks => exact ⟨_, .incomplete waits lookup lacks, rfl⟩

end TableOptions

section Runs

variable {stages later : List Stage} {pipeline : Pipeline}
  {unit : StatementUnit} {create : Ddl.CreateTable}

theorem Stage.apply_later {stage : Stage} (other : stage ≠ .tableOptions)
    (atLineStart : Bool) (state : PipelineState) (text : Text) :
    ∃ counts, (stage.apply atLineStart state text).1 =
      { state with counts := counts } := by
  cases stage with
  | tableOptions => exact absurd rfl other
  | timeZone =>
      simp only [apply, TimeZone.apply]
      split
      · split <;> exact ⟨_, rfl⟩
      · exact ⟨_, rfl⟩
  | dropStatement =>
      simp only [apply, DropStatement.apply]
      split <;> exact ⟨_, rfl⟩
  | volatile => exact ⟨_, rfl⟩

theorem Stage.applyAll_later (others : .tableOptions ∉ stages)
    (atLineStart : Bool) (state : PipelineState) (text : Text) :
    ∃ counts, (applyAll atLineStart stages state text).1 =
      { state with counts := counts } := by
  induction stages generalizing state text with
  | nil => exact ⟨_, rfl⟩
  | cons stage stages ih =>
      cases text with
      | nil => exact ⟨_, rfl⟩
      | cons head tail =>
          simp only [List.mem_cons, not_or] at others
          obtain ⟨first, firstEq⟩ :=
            Stage.apply_later (Ne.symm others.1) atLineStart state
              (head :: tail)
          obtain ⟨rest, restEq⟩ :=
            ih others.2 (stage.apply atLineStart state (head :: tail)).1
            (stage.apply atLineStart state (head :: tail)).2
          refine ⟨rest, restEq.trans ?_⟩
          rw [firstEq]

namespace Pipeline

/-- The table stage comes first and only once. -/
structure TablesFirst (pipeline : Pipeline) (later : List Stage) : Prop where
  stages : pipeline.stages = .tableOptions :: later
  once : .tableOptions ∉ later

/-- The table stage reads a unit as it stands in the dump, and what it gives
goes through the other stages. -/
theorem process_eq (first : pipeline.TablesFirst later)
    (plain : unit.kind ≠ .directive) :
    pipeline.process unit =
      let noted := TableOptions.apply pipeline.state unit.text
      let passed := Stage.applyAll unit.atLineStart later noted.1 noted.2
      ({ pipeline with state := passed.1 }, passed.2) := by
  have applied : Stage.applyAll unit.atLineStart pipeline.stages pipeline.state
      unit.text =
      Stage.applyAll unit.atLineStart later
        (TableOptions.apply pipeline.state unit.text).1
        (TableOptions.apply pipeline.state unit.text).2 := by
    rw [first.stages]
    cases unit.text with
    | nil =>
        rw [TableOptions.apply_nil]
        cases later <;> rfl
    | cons head tail => rfl
  unfold process
  split
  · next directive => exact absurd directive plain
  · rw [applied]

/-- Behind the units the state is told by them and the pipeline that they
met. -/
structure Recalls (pipeline run : Pipeline) (later : List Stage)
    (units : List StatementUnit) : Prop where
  first : run.TablesFirst later
  catalog : run.state.catalog = pipeline.state.catalog
  schema : run.state.schema = schemaBehind pipeline.state.schema units
  waits : ∀ name, name ∈ run.state.placeholders ↔ ViewWaits units name

private theorem process_recalls (first : pipeline.TablesFirst later)
    (unit : StatementUnit) :
    (pipeline.process unit).1.stages = pipeline.stages ∧
      (pipeline.process unit).1.state.catalog = pipeline.state.catalog ∧
      (pipeline.process unit).1.state.schema =
        unit.usedSchema?.or pipeline.state.schema ∧
      ∀ name, name ∈ (pipeline.process unit).1.state.placeholders ↔
        unit.droppedView? = some name ∨
          name ∈ pipeline.state.placeholders ∧ ¬unit.Creates name := by
  by_cases directive : unit.kind = .directive
  · have same : pipeline.process unit = (pipeline, unit.text) := by
      simp [process, directive]
    have noStatement : unit.statement? = none := if_pos directive
    simp [same, StatementUnit.Creates, StatementUnit.usedSchema?,
      StatementUnit.droppedView?, StatementUnit.createdTable?, noStatement]
  · have statement : unit.statement? = some (splitStatement unit.text).2 :=
      if_neg directive
    obtain ⟨sameCatalog, schemaEq, marks⟩ :=
      TableOptions.apply_remembers pipeline.state unit.text
    obtain ⟨counts, passed⟩ := Stage.applyAll_later first.once unit.atLineStart
      (TableOptions.apply pipeline.state unit.text).1
        (TableOptions.apply pipeline.state unit.text).2
    rw [process_eq first directive]
    dsimp only
    rw [passed]
    refine ⟨rfl, sameCatalog, ?_, fun name => ?_⟩
    · rw [StatementUnit.usedSchema?, statement]
      exact schemaEq
    · rw [StatementUnit.Creates, StatementUnit.droppedView?,
        StatementUnit.createdTable?, statement]
      refine (marks name).trans (or_congr_right (and_congr_right fun _ => ?_))
      simp

/-- What the units tell is what the state says behind them. -/
theorem recalls_processAll (first : pipeline.TablesFirst later)
    (fresh : pipeline.state.placeholders = []) (units : List StatementUnit) :
    pipeline.Recalls (pipeline.processAll units).1 later units := by
  induction units using List.reverseRecOn with
  | nil =>
      refine ⟨first, rfl, rfl, fun name => ?_⟩
      have nothing : name ∉ pipeline.state.placeholders := by simp [fresh]
      exact iff_of_false nothing not_viewWaits_nil
  | append_singleton units unit ih =>
      obtain ⟨sameStages, sameCatalog, schemaEq, marks⟩ :=
        process_recalls ih.first unit
      have run : (pipeline.processAll (units ++ [unit])).1 =
          ((pipeline.processAll units).1.process unit).1 := by
        rw [processAll_append]
        rfl
      rw [run]
      refine ⟨⟨sameStages.trans ih.first.stages, first.once⟩,
        sameCatalog.trans ih.catalog, ?_, ?_⟩
      · rw [schemaEq, ih.schema, schemaBehind_concat]
      · intro name
        rw [marks, ih.waits, viewWaits_concat]

theorem of_createdTable? (creates : unit.createdTable? = some create) :
    unit.kind ≠ .directive ∧
      Ddl.createTable? (splitStatement unit.text).2 = some create := by
  obtain ⟨body, statement, found⟩ := Option.bind_eq_some_iff.mp creates
  unfold StatementUnit.statement? at statement
  split at statement
  · simp at statement
  · next plain =>
      obtain rfl := Option.some.inj statement
      exact ⟨plain, found⟩

/-- Behind any units a statement that creates a table is looked up in its own
schema or the one of the last `USE`.  It is left out exactly if a view of its
name was dropped and no table of that name was created since, whatever the later
stages did to those units, and the view then waits no more.  What the table
stage gives goes through the later stages, and no other stage reports
anything. -/
theorem creates_by_history (pipeline : Pipeline) (later : List Stage)
    (first : pipeline.TablesFirst later)
    (fresh : pipeline.state.placeholders = []) (earlier : List StatementUnit)
    (unit : StatementUnit) (create : Ddl.CreateTable)
    (creates : unit.createdTable? = some create) :
    let run := (pipeline.processAll earlier).1
    let schema := create.schema.or (schemaBehind pipeline.state.schema earlier)
    let noted := TableOptions.apply run.state unit.text
    let passed := Stage.applyAll unit.atLineStart later noted.1 noted.2
    ∃ raised,
      CreateOutcome pipeline.state.catalog schema
        (ViewWaits earlier create.table) unit.text create noted.2 raised ∧
      run.process unit = ({ run with state := passed.1 }, passed.2) ∧
      passed.1.log = run.state.log.addAll raised ∧
      ¬ViewWaits (earlier ++ [unit]) create.table := by
  intro run schema noted passed
  have recalls : pipeline.Recalls run later earlier :=
    recalls_processAll first fresh earlier
  obtain ⟨plain, found⟩ := of_createdTable? creates
  obtain ⟨raised, outcome, logged⟩ := TableOptions.apply_outcome run.state found
  rw [recalls.catalog, recalls.schema, propext (recalls.waits create.table)]
    at outcome
  obtain ⟨counts, counted⟩ :=
    Stage.applyAll_later first.once unit.atLineStart noted.1 noted.2
  refine ⟨raised, outcome, process_eq recalls.first plain, ?_, ?_⟩
  · rw [counted]
    exact logged
  · rw [viewWaits_concat]
    rintro (drops | ⟨-, noTable⟩)
    · obtain ⟨body, statement, dropped⟩ := Option.bind_eq_some_iff.mp drops
      obtain ⟨other, sameStatement, created⟩ :=
        Option.bind_eq_some_iff.mp creates
      obtain rfl := Option.some.inj (statement.symm.trans sameStatement)
      rw [(Ddl.createTable?_only created).2] at dropped
      exact Option.some_ne_none _ dropped.symm
    · exact noTable ⟨create, creates, rfl⟩

/-- All stages, and one table that is known. -/
def shopPipeline : Pipeline where
  stages := [.tableOptions, .timeZone, .dropStatement, .volatile]
  state := { catalog := ⟨[⟨"shop".toList, "v".toList,
    { engine := some "InnoDB".toList,
      collation := some "utf8mb4_bin".toList }⟩]⟩ }

def statementUnit (text : String) : StatementUnit :=
  ⟨.statement, true, text.toList⟩

theorem creates_by_history_shop :
    let earlier := ["USE `shop`;\n", "DROP VIEW IF EXISTS `v`;\n",
      "DROP VIEW IF EXISTS `v`;\n"].map
      statementUnit
    let unit := statementUnit "CREATE TABLE v (a int);\n"
    let run := (shopPipeline.processAll earlier).1
    shopPipeline.TablesFirst [.timeZone, .dropStatement, .volatile] ∧
      shopPipeline.state.placeholders = [] ∧
      unit.createdTable? = some ⟨none, "v".toList, " (a int);\n".toList⟩ ∧
      (shopPipeline.processAll earlier).2 = ["USE `shop`;\n".toList, [], []] ∧
      ViewWaits earlier "v".toList ∧ (run.process unit).2 = unit.text ∧
      ¬ViewWaits (earlier ++ [unit]) "v".toList ∧
      ((run.process unit).1.process unit).2 =
        ("CREATE TABLE v (a int) ENGINE=InnoDB " ++
        "DEFAULT CHARSET=utf8mb4 COLLATE=utf8mb4_bin;\n").toList := by
  intro earlier unit run
  have first :
      shopPipeline.TablesFirst [.timeZone, .dropStatement, .volatile] :=
    ⟨rfl, by decide⟩
  have creates : unit.createdTable? =
      some ⟨none, "v".toList, " (a int);\n".toList⟩ := by
    decide +kernel
  have waits : ViewWaits earlier "v".toList :=
    ⟨earlier.take 2, statementUnit "DROP VIEW IF EXISTS `v`;\n", [],
      rfl, by decide +kernel, List.forall_mem_nil _⟩
  obtain ⟨-, -, -, -, waitsNoMore⟩ :=
    creates_by_history shopPipeline _ first rfl earlier unit _ creates
  exact ⟨first, rfl, creates, by decide +kernel, waits, by decide +kernel,
    waitsNoMore, by decide +kernel⟩

end Pipeline

end Runs

end SqlDump
