import SqlDump.Proofs.Pipeline.Settled
import SqlDump.Proofs.Session.Streaming
import SqlDump.Proofs.Unwrap.Kept

/-!
# The payload stays

Without metadata, and with every optional stage off, a session copies a dump
whose guards all stay, apart from the literals of its zone statements.
-/

namespace SqlDump

/-- The output copies the units, which stand behind `before`, apart from `count`
literals: each is all that a zone statement assigns, and the offset stands in
its place. -/
inductive OnlyZonesChange : Text → List StatementUnit → Text → Nat → Prop where
  | done (before : Text) : OnlyZonesChange before [] [] 0
  | copied {before output : Text} {unit : StatementUnit}
      {units : List StatementUnit} {count : Nat}
      (rest : OnlyZonesChange (before ++ unit.text) units output count) :
      OnlyZonesChange before (unit :: units) (unit.text ++ output) count
  | normalized {before output lead assignment literal ending : Text}
      {unit : StatementUnit} {units : List StatementUnit} {count : Nat}
      (statement : ZoneStatement before unit.text lead assignment literal
          ending)
      (rest : OnlyZonesChange (before ++ unit.text) units output count) :
      OnlyZonesChange before (unit :: units)
        (lead ++ (assignment ++ (TimeZone.offsetLiteral ++ ending)) ++ output)
        (count + 1)

/-- A pipeline without the optional stages and without metadata. -/
structure Pipeline.Plain (pipeline : Pipeline) : Prop where
  stages : pipeline.stages = [.tableOptions, .timeZone]
  catalog : pipeline.state.catalog.isEmpty = true

/-- The two stages that always run: the first one changes no text, so the second
one decides. -/
theorem Stage.applyAll_plain (atLineStart : Bool) (state : PipelineState)
    {text : Text} (empty : state.catalog.isEmpty = true)
    (nonempty : text ≠ []) :
    Stage.applyAll atLineStart [.tableOptions, .timeZone] state text =
      TimeZone.apply atLineStart (TableOptions.apply state text).1 text := by
  have sameText := (TableOptions.apply_of_isEmpty state text empty).1
  cases text with
  | nil => exact absurd rfl nonempty
  | cons head tail => simp only [applyAll, Stage.apply, sameText]

namespace Pipeline

theorem process_spec (pipeline : Pipeline) (before : Text)
    (unit : StatementUnit) (plain : pipeline.Plain)
    (begins : unit.atLineStart = endsLine before) :
    (pipeline.process unit).1.Plain ∧
      (((pipeline.process unit).2 = unit.text ∧
          (pipeline.process unit).1.state.counts.timeZonesNormalized =
            pipeline.state.counts.timeZonesNormalized) ∨
        ∃ lead assignment literal ending,
          ZoneStatement before unit.text lead assignment literal ending ∧
          (pipeline.process unit).2 =
            lead ++ (assignment ++ (TimeZone.offsetLiteral ++ ending)) ∧
          (pipeline.process unit).1.state.counts.timeZonesNormalized =
            pipeline.state.counts.timeZonesNormalized + 1) := by
  obtain ⟨_, sameCatalog, sameCounts⟩ :=
    TableOptions.apply_of_isEmpty pipeline.state unit.text plain.catalog
  unfold process
  split
  · exact ⟨plain, .inl ⟨rfl, rfl⟩⟩
  · rw [plain.stages]
    by_cases nonempty : unit.text = []
    · rw [nonempty]
      exact ⟨⟨rfl, plain.catalog⟩, .inl ⟨rfl, rfl⟩⟩
    · rw [Stage.applyAll_plain _ _ plain.catalog nonempty]
      rcases TimeZone.apply_spec before unit
        (TableOptions.apply pipeline.state unit.text).1
          begins with copied | ⟨lead, assignment, literal, ending, statement,
            changed⟩
      · rw [copied]
        exact ⟨⟨rfl, sameCatalog ▸ plain.catalog⟩,
          .inl ⟨rfl, by rw [← sameCounts]⟩⟩
      · rw [changed]
        refine ⟨⟨rfl, sameCatalog ▸ plain.catalog⟩,
          .inr ⟨lead, assignment, literal, ending, statement, rfl, ?_⟩⟩
        rw [← sameCounts]

theorem processAll_spec (pipeline : Pipeline) (before : Text)
    (units : List StatementUnit) (plain : pipeline.Plain)
    (begin : BeginLines before units) :
    ∃ count, OnlyZonesChange before units (pipeline.processAll units).2.flatten
      count ∧
      (pipeline.processAll units).1.state.counts.timeZonesNormalized =
        pipeline.state.counts.timeZonesNormalized + count := by
  induction units generalizing pipeline before with
  | nil => exact ⟨0, .done before, rfl⟩
  | cons unit units ih =>
      obtain ⟨begins, beginsLater⟩ := begin
      obtain ⟨stillPlain, outcome⟩ :=
        pipeline.process_spec before unit plain begins
      obtain ⟨count, rest, counted⟩ := ih _ _ stillPlain beginsLater
      rcases outcome with
        ⟨copied, same⟩ | ⟨lead, assignment, literal, ending, statement, changed,
          more⟩
      · refine ⟨count, ?_, ?_⟩
        · simp only [processAll, List.flatten_cons, copied]
          exact .copied rest
        · rw [processAll, counted, same]
      · refine ⟨count + 1, ?_, ?_⟩
        · simp only [processAll, List.flatten_cons, changed]
          exact .normalized statement rest
        · rw [processAll, counted, more]
          omega

end Pipeline

theorem PipelineState.counts_foldl_warn (state : PipelineState)
    (warnings : List Warning) :
    (warnings.foldl PipelineState.warn state).counts = state.counts := by
  induction warnings generalizing state with
  | nil => rfl
  | cons warning warnings ih => exact ih (state.warn warning)

/-- What a session does to a dump whose guards all stay, without metadata and
with the optional stages off: it copies the units of the decoded input, apart
from the literals that it counts. -/
theorem cleanChunks_only_changes_zones (options : CleanOptions)
    (catalog : Catalog) (chunks : List Bytes)
    (keepsDrops : options.noDrop = false)
    (keepsValues : options.sanitize = false)
    (noMetadata : catalog.isEmpty = true)
    (noneBelow : ∀ guard line,
      .guard guard line ∈ segmentsOf (Utf8.decodeLossy chunks.flatten) →
      options.threshold ≤ guard.version) :
    let cleaned := cleanChunks options catalog chunks
    let input := Utf8.decodeLossy chunks.flatten
    OnlyZonesChange [] (unitsOf input) cleaned.1
      cleaned.2.counts.timeZonesNormalized ∧
      (unitsOf input).flatMap StatementUnit.text = input ∧
      cleaned.2.unwrapped = 0 ∧ cleaned.2.reattached = 0 := by
  intro cleaned input
  obtain ⟨joined, begin⟩ := unitsOf_spec input
  obtain ⟨sameText, unwrapped, reattached⟩ :=
    unwrap_of_kept options.collapse noneBelow
  have whole : cleaned = cleanWhole options catalog chunks.flatten :=
    cleanChunks_eq_cleanWhole options catalog chunks
  obtain ⟨count, changed, counted⟩ := Pipeline.processAll_spec
    { stages := options.stages
      state := { catalog := catalog, schema := options.defaultSchema } } []
        (unitsOf input)
    ⟨by simp [CleanOptions.stages, keepsDrops, keepsValues], noMetadata⟩ begin
  have output : cleaned.1 = (Pipeline.processAll
      { stages := options.stages
        state := { catalog := catalog, schema := options.defaultSchema } }
      (unitsOf input)).2.flatten := by
    rw [whole]
    simp only [cleanWhole, sameText, input]
  have zones : cleaned.2.counts.timeZonesNormalized = count := by
    rw [whole]
    simp only [cleanWhole, sameText, PipelineState.counts_foldl_warn]
    rw [counted]
    exact Nat.zero_add count
  rw [output, zones, whole]
  exact ⟨changed, joined, unwrapped, reattached⟩

/-- A dump with one guard, which stays, and one zone statement. -/
def zoneDump : Bytes :=
  Text.encode "/*!99999 a*/;\nSET time_zone = 'UTC';\n".toList

theorem cleanChunks_zoneDump :
    (∀ guard line, .guard guard line ∈ segmentsOf (Utf8.decodeLossy zoneDump) →
        defaultThreshold ≤ guard.version) ∧
      OnlyZonesChange [] (unitsOf (Utf8.decodeLossy zoneDump))
        (cleanChunks {} {} [zoneDump]).1 1 ∧
      (cleanChunks {} {} [zoneDump]).2.unwrapped = 0 := by
  have segments : segmentsOf (Utf8.decodeLossy zoneDump) =
      [.guard ⟨"99999".toList, " a".toList⟩ 1,
        .text ";\nSET time_zone = 'UTC';\n".toList] := by
    decide +kernel
  have noneBelow : ∀ guard line, .guard guard line ∈
      segmentsOf (Utf8.decodeLossy zoneDump) →
      defaultThreshold ≤ guard.version := by
    intro guard line member
    rw [segments] at member
    simp only [List.mem_cons, Segment.guard.injEq, reduceCtorEq,
      List.not_mem_nil, or_false]
      at member
    rw [member.1]
    decide +kernel
  have single : [zoneDump].flatten = zoneDump := by simp
  obtain ⟨changed, _, unwrapped, _⟩ :=
    cleanChunks_only_changes_zones {} {} [zoneDump] rfl rfl rfl
    (by rw [single]; exact noneBelow)
  have one : (cleanChunks {} {} [zoneDump]).2.counts.timeZonesNormalized =
      1 := by
    decide +kernel
  rw [single, one] at changed
  exact ⟨noneBelow, changed, unwrapped⟩

end SqlDump
