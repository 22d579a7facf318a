import SqlDump.Proofs.Pipeline.History

/-!
# Placeholders go by their bare names

A dropped view waits under its name alone, while a table is looked up by its
schema and its name.  So a table that could be completed is left out as soon as
a view of its name waits, whichever schema was in force when the view was
dropped.  The schema of the table decides only where no view of its name waits
in other schemas alone.
-/

namespace SqlDump

/-- The view was dropped while `schema` was in force, and since then no table of
its name was created. -/
def ViewWaitsIn (start : Option Text) (units : List StatementUnit) (name : Text)
    (schema : Option Text) : Prop :=
  ∃ before drop between, units = before ++ drop :: between ∧
    drop.droppedView? = some name ∧
    schemaBehind start before = schema ∧ ∀ unit ∈ between, ¬unit.Creates name

private theorem viewWaits_iff {units : List StatementUnit} {name : Text}
    (start : Option Text) :
    ViewWaits units name ↔ ∃ schema, ViewWaitsIn start units name schema := by
  constructor
  · rintro ⟨before, drop, between, split, drops, none⟩
    exact ⟨_, before, drop, between, split, drops, rfl, none⟩
  · rintro ⟨schema, before, drop, between, split, drops, -, none⟩
    exact ⟨before, drop, between, split, drops, none⟩

theorem TableOptions.complete?_ne {body rest completed : Text}
    {info : TableInfo} (lacks : complete? body rest info = some completed) :
    completed ≠ body := by
  unfold complete? at lacks
  split at lacks
  · simp at lacks
  · next behind goesOn =>
      dsimp only at lacks
      split at lacks
      · simp at lacks
      · next something =>
          obtain rfl := Option.some.inj lacks
          intro same
          have lengths := congrArg List.length same
          have positive := List.length_pos_iff.mpr something
          simp only [List.length_append, List.length_take, List.length_drop]
            at lengths
          omega

/-- A table whose options are known is left out or completed. -/
theorem CreateOutcome.of_found {catalog : Catalog} {schema : Option Text}
    {waits : Prop} {text given foundSchema : Text} {create : Ddl.CreateTable}
    {raised : List Warning} {info : TableInfo}
    (outcome : CreateOutcome catalog schema waits text create given raised)
    (lookup : catalog.resolve schema create.table = .found foundSchema info)
    (complete : info.missing = []) :
    waits ∧ given = text ∨
      ¬waits ∧ given = (splitStatement text).1 ++
        (TableOptions.complete? (splitStatement text).2 create.rest info).getD
          (splitStatement text).2 := by
  cases outcome with
  | exempt placeholder => exact .inl ⟨placeholder, rfl⟩
  | noCatalog plain empty =>
      obtain ⟨entry, member, -⟩ := Catalog.mem_of_resolve lookup
      rw [List.isEmpty_iff.mp empty] at member
      exact absurd member List.not_mem_nil
  | missing plain known other => simp [lookup] at other
  | ambiguous plain other => simp [lookup] at other
  | incomplete plain other lacks =>
      obtain ⟨-, rfl⟩ := Lookup.found.inj (lookup.symm.trans other)
      exact absurd complete lacks
  | known plain other =>
      obtain ⟨-, rfl⟩ := Lookup.found.inj (lookup.symm.trans other)
      exact .inr ⟨plain, rfl⟩

namespace Pipeline

/-- A table that can be completed gets its options exactly if no view of its
name waits in any schema.  The schema that the table is looked up in decides
alone exactly if the views of its name do not wait in other schemas only. -/
theorem exempts_by_name (pipeline : Pipeline) (later : List Stage)
    (first : pipeline.TablesFirst later)
    (fresh : pipeline.state.placeholders = []) (earlier : List StatementUnit)
    (unit : StatementUnit) (create : Ddl.CreateTable)
    (creates : unit.createdTable? = some create) (foundSchema : Text)
    (info : TableInfo) (completed : Text)
    (lookup : pipeline.state.catalog.resolve
        (create.schema.or (schemaBehind pipeline.state.schema earlier))
        create.table = .found foundSchema info)
    (complete : info.missing = [])
    (lacks : TableOptions.complete? (splitStatement unit.text).2 create.rest
        info = some completed) :
    let start := pipeline.state.schema
    let schema := create.schema.or (schemaBehind start earlier)
    let run := (pipeline.processAll earlier).1
    let noted := TableOptions.apply run.state unit.text
    let passed := Stage.applyAll unit.atLineStart later noted.1 noted.2
    let augmented := (splitStatement unit.text).1 ++ completed
    run.process unit = ({ run with state := passed.1 }, passed.2) ∧
      (noted.2 = augmented ↔ ∀ dropped,
        ¬ViewWaitsIn start earlier create.table dropped) ∧
      (noted.2 = unit.text ↔ ∃ dropped,
        ViewWaitsIn start earlier create.table dropped) ∧
      ((noted.2 = augmented ↔ ¬ViewWaitsIn start earlier create.table schema) ↔
        ∀ dropped, ViewWaitsIn start earlier create.table dropped →
          ViewWaitsIn start earlier create.table schema) := by
  intro start schema run noted passed augmented
  have recalls : pipeline.Recalls run later earlier :=
    recalls_processAll first fresh earlier
  obtain ⟨plain, found⟩ := of_createdTable? creates
  have textEq := (splitStatement_spec unit.text).1
  have longer : augmented ≠ unit.text := by
    intro same
    rw [textEq] at same
    exact TableOptions.complete?_ne lacks (List.append_cancel_left same)
  obtain ⟨raised, outcome, -⟩ := TableOptions.apply_outcome run.state found
  rw [recalls.catalog, recalls.schema, propext (recalls.waits create.table),
    propext (viewWaits_iff start)] at outcome
  have given := outcome.of_found lookup complete
  rw [lacks, Option.getD_some] at given
  change _ ∧ noted.2 = unit.text ∨ _ ∧ noted.2 = augmented at given
  have left : noted.2 = augmented ↔
      ¬∃ dropped, ViewWaitsIn start earlier create.table dropped := by
    rcases given with ⟨waits, same⟩ | ⟨plain, gets⟩
    · exact iff_of_false (fun gets => longer (gets.symm.trans same))
        (not_not_intro waits)
    · exact iff_of_true gets plain
  refine ⟨process_eq recalls.first plain, left.trans not_exists, ?_, ?_⟩
  · rcases given with ⟨waits, same⟩ | ⟨plain, gets⟩
    · exact iff_of_true same waits
    · exact iff_of_false (fun same => longer (gets.symm.trans same)) plain
  · rw [left, not_iff_not]
    constructor
    · intro own dropped waits
      exact own.mp ⟨dropped, waits⟩
    · intro own
      exact ⟨fun ⟨dropped, waits⟩ => own dropped waits, fun waits => ⟨_, waits⟩⟩

/-- One table that is known. -/
def schemasPipeline : Pipeline where
  stages := [.tableOptions, .timeZone]
  state := { catalog := ⟨[⟨"b".toList, "v".toList,
    { engine := some "InnoDB".toList,
      collation := some "utf8mb4_bin".toList }⟩]⟩ }

theorem exempts_by_name_own :
    let earlier := ["USE b;\n", "DROP VIEW IF EXISTS `v`;\n"].map statementUnit
    let unit := statementUnit "CREATE TABLE v (x int);\n"
    let info : TableInfo :=
      { engine := some "InnoDB".toList, collation := some "utf8mb4_bin".toList }
    schemasPipeline.TablesFirst [.timeZone] ∧
      schemasPipeline.state.placeholders = [] ∧
      unit.createdTable? = some ⟨none, "v".toList, " (x int);\n".toList⟩ ∧
      schemasPipeline.state.catalog.resolve (schemaBehind none earlier)
        "v".toList =
        .found "b".toList info ∧
      info.missing = [] ∧
      (TableOptions.complete? (splitStatement unit.text).2 " (x int);\n".toList
        info).isSome ∧
      ViewWaitsIn none earlier "v".toList (some "b".toList) ∧
      (TableOptions.apply (schemasPipeline.processAll earlier).1.state
        unit.text).2 = unit.text := by
  intro earlier unit info
  have first : schemasPipeline.TablesFirst [.timeZone] := ⟨rfl, by decide⟩
  have creates : unit.createdTable? =
      some ⟨none, "v".toList, " (x int);\n".toList⟩ := by
    decide +kernel
  have lookup : schemasPipeline.state.catalog.resolve
      (schemaBehind none earlier) "v".toList =
      .found "b".toList info := by decide +kernel
  have lacks :
      (TableOptions.complete? (splitStatement unit.text).2 " (x int);\n".toList
      info).isSome := by decide +kernel
  have waits : ViewWaitsIn none earlier "v".toList (some "b".toList) :=
    ⟨[statementUnit "USE b;\n"], statementUnit "DROP VIEW IF EXISTS `v`;\n", [],
      rfl, by decide +kernel, by decide +kernel, List.forall_mem_nil _⟩
  obtain ⟨completed, lacksEq⟩ := Option.isSome_iff_exists.mp lacks
  obtain ⟨-, -, kept, -⟩ :=
    exempts_by_name schemasPipeline _ first rfl earlier unit _ creates _ _
    completed lookup rfl lacksEq
  exact ⟨first, rfl, creates, lookup, rfl, lacks, waits, kept.mpr ⟨_, waits⟩⟩

/-- A view that was dropped in one schema leaves a table of another without its
options. -/
theorem foreign_view_exempts :
    let earlier := ["USE a;\n", "DROP VIEW IF EXISTS `v`;\n",
      "USE b;\n"].map statementUnit
    let unit := statementUnit "CREATE TABLE v (x int);\n"
    let completed :=
      ("CREATE TABLE v (x int) ENGINE=InnoDB DEFAULT CHARSET=utf8mb4 " ++
      "COLLATE=utf8mb4_bin;\n").toList
    let info : TableInfo :=
      { engine := some "InnoDB".toList, collation := some "utf8mb4_bin".toList }
    unitsOf
      ("USE a;\nDROP VIEW IF EXISTS `v`;\nUSE b;\n" ++
        "CREATE TABLE v (x int);\n").toList =
        earlier ++ [unit] ∧
      unit.createdTable? = some ⟨none, "v".toList, " (x int);\n".toList⟩ ∧
      ViewWaitsIn none earlier "v".toList (some "a".toList) ∧
      schemaBehind none earlier = some "b".toList ∧
      ¬ViewWaitsIn none earlier "v".toList (some "b".toList) ∧
      schemasPipeline.state.catalog.resolve (some "b".toList) "v".toList =
        .found "b".toList info ∧
      info.missing = [] ∧
      TableOptions.complete? unit.text " (x int);\n".toList info =
        some completed ∧
      ((schemasPipeline.processAll earlier).1.process unit).2 = unit.text ∧
      completed ≠ unit.text := by
  intro earlier unit completed info
  have waits : ViewWaitsIn none earlier "v".toList (some "a".toList) := by
    refine ⟨[statementUnit "USE a;\n"],
      statementUnit "DROP VIEW IF EXISTS `v`;\n",
      [statementUnit "USE b;\n"], rfl, by decide +kernel, by decide +kernel, ?_⟩
    intro other member
    obtain rfl := List.mem_singleton.mp member
    have noTable : (statementUnit "USE b;\n").createdTable? = none := by
      decide +kernel
    simp [StatementUnit.Creates, noTable]
  have foreign : ¬ViewWaitsIn none earlier "v".toList (some "b".toList) := by
    rintro ⟨before, drop, between, split, drops, schemaEq, -⟩
    rcases before with _ | ⟨first, _ | ⟨second, _ | ⟨third, before⟩⟩⟩
    · obtain ⟨rfl, -⟩ := List.cons.inj split
      exact absurd drops (by decide +kernel)
    · obtain ⟨rfl, -⟩ := List.cons.inj split
      exact absurd schemaEq (by decide +kernel)
    · obtain ⟨-, later⟩ := List.cons.inj split
      obtain ⟨-, last⟩ := List.cons.inj later
      obtain ⟨rfl, -⟩ := List.cons.inj last
      exact absurd drops (by decide +kernel)
    · have lengths := congrArg List.length split
      simp [earlier] at lengths
  exact ⟨by decide +kernel, by decide +kernel, waits, by decide +kernel,
    foreign, by decide +kernel, rfl, by decide +kernel, by decide +kernel,
    by decide +kernel⟩

end Pipeline

end SqlDump
