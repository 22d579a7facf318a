import SqlDump.Pipeline

/-!
# Nothing reads the log

The stages add warnings to the log and never look at it.  Two runs that differ
in what was logged before them write the same texts and log the same warnings,
and without metadata they log none.
-/

namespace SqlDump

theorem WarningLog.addAll_append (log : WarningLog)
    (first second : List Warning) :
    log.addAll (first ++ second) = (log.addAll first).addAll second :=
  List.foldl_append

namespace PipelineState

def withLog (state : PipelineState) (log : WarningLog) : PipelineState :=
  { state with log := log }

@[simp] theorem catalog_withLog (state : PipelineState) (log : WarningLog) :
    (state.withLog log).catalog = state.catalog := rfl

private theorem markPlaceholder_withLog (state : PipelineState) (view : Text)
    (log : WarningLog) :
    (state.withLog log).markPlaceholder view =
      (state.markPlaceholder view).withLog log := by
  unfold markPlaceholder withLog
  split <;> rfl

theorem foldl_warn (state : PipelineState) (warnings : List Warning) :
    warnings.foldl warn state = state.withLog (state.log.addAll warnings) := by
  induction warnings generalizing state with
  | nil => rfl
  | cons warning warnings ih => exact ih (state.warn warning)

end PipelineState

/-- Whatever was logged before, the change logs the warnings `raised` and gives
the same outcome otherwise; without metadata it logs none. -/
structure Logs (state : PipelineState)
    (change : PipelineState → PipelineState × α) (raised : List Warning) :
    Prop where
  outcome : ∀ log, change (state.withLog log) =
    ((change state).1.withLog (log.addAll raised), (change state).2)
  catalog : (change state).1.catalog = state.catalog
  silent : state.catalog.isEmpty = true → raised = []

namespace Logs

variable {state : PipelineState} {raised first second : List Warning}
  {change : PipelineState → PipelineState × α}

theorem nothing
    (outcome : ∀ log,
      change (state.withLog log) =
        ((change state).1.withLog log, (change state).2))
    (catalog : (change state).1.catalog = state.catalog) :
    Logs state change [] :=
  ⟨outcome, catalog, fun _ => rfl⟩

theorem trans (next : α → PipelineState → PipelineState × β)
    (logs : Logs state change first)
    (nextLogs : Logs (change state).1 (next (change state).2) second) :
    Logs state (fun state => next (change state).2 (change state).1)
      (first ++ second) := by
  refine ⟨fun log => ?_, nextLogs.catalog.trans logs.catalog,
    fun noMetadata => ?_⟩
  · rw [logs.outcome, nextLogs.outcome, WarningLog.addAll_append]
  · rw [logs.silent noMetadata,
      nextLogs.silent (by rw [logs.catalog, noMetadata])]
    rfl

end Logs

variable (state : PipelineState) (atLineStart : Bool) (text : Text)

theorem TableOptions.logs_augment (lead body : Text) (create : Ddl.CreateTable)
    (metadata : state.catalog.isEmpty = false) :
    ∃ raised, Logs state (fun state => augment state lead body create)
      raised := by
  have noSilence {raised : List Warning} : state.catalog.isEmpty = true →
      raised = [] := by
    intro empty
    rw [metadata] at empty
    exact absurd empty Bool.false_ne_true
  have sameLookup (log : WarningLog) :
      (state.withLog log).catalog.resolve
        (create.schema.or (state.withLog log).schema)
        create.table = state.catalog.resolve (create.schema.or state.schema)
          create.table := rfl
  unfold augment
  cases lookup : state.catalog.resolve (create.schema.or state.schema)
    create.table with
  | missing =>
      refine ⟨[.missingTable (create.schema.or state.schema) create.table], ?_,
        ?_, noSilence⟩
      · intro log
        simp only [sameLookup, lookup]
        rfl
      · simp only [lookup]
        rfl
  | ambiguous candidates =>
      refine ⟨[.ambiguousTable create.table candidates], ?_, ?_, noSilence⟩
      · intro log
        simp only [sameLookup, lookup]
        rfl
      · simp only [lookup]
        rfl
  | found schema info =>
      cases lacks : info.missing with
      | cons first others =>
          refine
            ⟨[.incompleteTable ((create.schema.or state.schema).getD [])
              create.table
            (first :: others)], ?_, ?_, noSilence⟩
          · intro log
            simp only [sameLookup, lookup, lacks]
            rfl
          · simp only [lookup, lacks]
            rfl
      | nil =>
          refine ⟨[], .nothing ?_ ?_⟩
          · intro log
            simp only [sameLookup, lookup, lacks]
            split <;> rfl
          · simp only [lookup, lacks]
            split <;> rfl

theorem TableOptions.logs : ∃ raised, Logs state (fun state => apply state text)
    raised := by
  unfold apply
  generalize splitStatement text = parts
  obtain ⟨lead, body⟩ := parts
  dsimp only
  cases Ddl.useTarget? body with
  | some schema => exact ⟨[], .nothing (fun _ => rfl) rfl⟩
  | none =>
      cases Ddl.dropViewTarget? body with
      | some view =>
          refine ⟨[], .nothing (fun log => ?_) ?_⟩
          · simp only [state.markPlaceholder_withLog]
          · unfold PipelineState.markPlaceholder
            dsimp only
            split <;> rfl
      | none =>
          cases Ddl.createTable? body with
          | none => exact ⟨[], .nothing (fun _ => rfl) rfl⟩
          | some create =>
              by_cases placeholder : state.placeholders.contains create.table =
                true
              · have same (log : WarningLog) :
                    (state.withLog log).placeholders.contains create.table =
                      true := placeholder
                refine ⟨[], .nothing (fun log => ?_) ?_⟩
                · simp only [same, placeholder, if_true]
                  rfl
                · simp only [placeholder, if_true]
                  rfl
              · have same (log : WarningLog) :
                    ¬(state.withLog log).placeholders.contains create.table =
                      true := placeholder
                cases metadata : state.catalog.isEmpty with
                | true =>
                    refine ⟨[], .nothing (fun log => ?_) ?_⟩
                    · simp only [same, placeholder, metadata,
                        PipelineState.catalog_withLog, Bool.false_eq_true,
                        if_false, if_true]
                    · simp only [placeholder, metadata, Bool.false_eq_true,
                        if_false, if_true]
                | false =>
                    obtain ⟨raised, outcome, catalog, silent⟩ :=
                      logs_augment state lead body create metadata
                    refine ⟨raised, fun log => ?_, ?_, silent⟩
                    · simpa only [same, placeholder, metadata,
                        PipelineState.catalog_withLog, if_false,
                        Bool.false_eq_true] using outcome log
                    · simpa only [placeholder, metadata, if_false,
                        Bool.false_eq_true] using catalog

theorem Stage.logs (stage : Stage) :
    ∃ raised, Logs state (fun state => stage.apply atLineStart state text)
      raised := by
  cases stage with
  | tableOptions => exact TableOptions.logs state text
  | timeZone =>
      refine ⟨[], .nothing (fun log => ?_) ?_⟩
      · unfold apply TimeZone.apply
        dsimp only
        split
        · split <;> rfl
        · rfl
      · unfold apply TimeZone.apply
        dsimp only
        split
        · split <;> rfl
        · rfl
  | dropStatement =>
      refine ⟨[], .nothing (fun log => ?_) ?_⟩
      · unfold apply DropStatement.apply
        dsimp only
        split <;> rfl
      · unfold apply DropStatement.apply
        dsimp only
        split <;> rfl
  | volatile => exact ⟨[], .nothing (fun _ => rfl) rfl⟩

theorem Stage.logs_applyAll (stages : List Stage) :
    ∃ raised, Logs state (fun state => applyAll atLineStart stages state text)
      raised := by
  induction stages generalizing state text with
  | nil => exact ⟨[], .nothing (fun _ => rfl) rfl⟩
  | cons stage stages ih =>
      cases text with
      | nil => exact ⟨[], .nothing (fun _ => rfl) rfl⟩
      | cons head tail =>
          obtain ⟨first, logs⟩ :=
            Stage.logs state atLineStart (head :: tail) stage
          obtain ⟨second, later⟩ :=
            ih (stage.apply atLineStart state (head :: tail)).1
            (stage.apply atLineStart state (head :: tail)).2
          exact ⟨first ++ second, logs.trans
            (fun text state => applyAll atLineStart stages state text) later⟩

namespace Pipeline

def withLog (pipeline : Pipeline) (log : WarningLog) : Pipeline :=
  { pipeline with state := pipeline.state.withLog log }

private theorem process_withLog (pipeline : Pipeline) (unit : StatementUnit) :
    ∃ raised, (pipeline.state.catalog.isEmpty = true → raised = []) ∧
      (pipeline.process unit).1.state.catalog = pipeline.state.catalog ∧
      ∀ log, (pipeline.withLog log).process unit =
        ((pipeline.process unit).1.withLog (log.addAll raised),
          (pipeline.process unit).2) := by
  obtain ⟨raised, logs⟩ :=
    Stage.logs_applyAll pipeline.state unit.atLineStart unit.text
      pipeline.stages
  unfold process
  cases unit.kind with
  | directive => exact ⟨[], fun _ => rfl, rfl, fun _ => rfl⟩
  | statement =>
      refine ⟨raised, logs.silent, logs.catalog, fun log => ?_⟩
      simp only [withLog, logs.outcome]
  | trailing =>
      refine ⟨raised, logs.silent, logs.catalog, fun log => ?_⟩
      simp only [withLog, logs.outcome]

/-- What is written does not depend on the log, nor does what is added to it. -/
theorem processAll_withLog (pipeline : Pipeline) (units : List StatementUnit) :
    ∃ raised, (pipeline.state.catalog.isEmpty = true → raised = []) ∧
      ∀ log, (pipeline.withLog log).processAll units =
        ((pipeline.processAll units).1.withLog (log.addAll raised),
          (pipeline.processAll units).2) := by
  induction units generalizing pipeline with
  | nil => exact ⟨[], fun _ => rfl, fun _ => rfl⟩
  | cons unit units ih =>
      obtain ⟨first, silent, catalog, outcome⟩ := pipeline.process_withLog unit
      obtain ⟨second, silentLater, later⟩ := ih (pipeline.process unit).1
      refine ⟨first ++ second, fun noMetadata => ?_, fun log => ?_⟩
      · rw [silent noMetadata, silentLater (by rw [catalog, noMetadata])]
        rfl
      · simp only [processAll, outcome, later, WarningLog.addAll_append]

theorem log_processAll (pipeline : Pipeline) (units : List StatementUnit)
    (noMetadata : pipeline.state.catalog.isEmpty = true) :
    (pipeline.processAll units).1.state.log = pipeline.state.log := by
  obtain ⟨raised, silent, outcome⟩ := pipeline.processAll_withLog units
  have same := outcome pipeline.state.log
  rw [show pipeline.withLog pipeline.state.log = pipeline from rfl,
    silent noMetadata] at same
  rw [same]
  rfl

end Pipeline

end SqlDump
