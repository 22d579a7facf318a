import SqlDump.Proofs.Pipeline.Lowering

/-!
# Settled units

A unit on which another run has nothing to do.  Without metadata a pipeline
returns a unit exactly if every stage does, and it counts a change exactly if it
does not.
-/

namespace SqlDump

namespace StageCounts

/-- Changes of every kind. -/
def changes (counts : StageCounts) : Nat :=
  counts.tablesAugmented + counts.timeZonesNormalized + counts.dropsSuppressed +
    counts.valuesSanitized

theorem changes_eq_zero_iff (counts : StageCounts) :
    counts.changes = 0 ↔ counts = {} := by
  obtain ⟨tables, zones, drops, values⟩ := counts
  simp only [changes, StageCounts.mk.injEq]
  omega

end StageCounts

theorem TableOptions.apply_of_isEmpty (state : PipelineState) (text : Text)
    (empty : state.catalog.isEmpty = true) :
    (TableOptions.apply state text).2 = text ∧
      (TableOptions.apply state text).1.catalog = state.catalog ∧
      (TableOptions.apply state text).1.counts = state.counts := by
  unfold TableOptions.apply
  dsimp only
  split
  · exact ⟨rfl, rfl, rfl⟩
  · split
    · refine ⟨rfl, ?_, ?_⟩ <;>
      (unfold PipelineState.markPlaceholder; split <;> rfl)
    · split
      · exact ⟨rfl, rfl, rfl⟩
      · split
        · exact ⟨rfl, rfl, rfl⟩
        · exact ⟨rfl, rfl, rfl⟩

namespace TimeZone

/-- The statement of the unit begins no line, or it does not set the zone to
`UTC`. -/
def Settled (atLineStart : Bool) (text : Text) : Prop :=
  beginsLine (splitStatement text).1 atLineStart = true →
  normalize? (splitStatement text).2 = none

end TimeZone

namespace Volatile

/-- The unit has no time in front of its statement, and a table that it creates
no counter other than zero. -/
def Settled (text : Text) : Prop :=
  stripTimes true (splitStatement text).1 = (splitStatement text).1 ∧
    (Ddl.isCreateTable (splitStatement text).2 = true →
      resetCounters {} none (splitStatement text).2 = (splitStatement text).2)

end Volatile

/-- Without metadata the stage has nothing to do on the unit. -/
def Stage.Settled (stage : Stage) (atLineStart : Bool) (text : Text) : Prop :=
  match stage with
  | .tableOptions => True
  | .timeZone => TimeZone.Settled atLineStart text
  | .dropStatement => DropStatement.Settled text
  | .volatile => Volatile.Settled text

/-- Directives pass every stage. -/
def StatementUnit.Settled (unit : StatementUnit) (stages : List Stage) : Prop :=
  unit.kind = .directive ∨ ∀ stage ∈ stages,
    stage.Settled unit.atLineStart unit.text

/-- The outcome keeps the text or lowers its rank.  It keeps a text that is
settled, and no other one, and counts changes exactly if there are some. -/
structure Accounts (state : PipelineState) (text : Text) (settled : Prop)
    (outcome : PipelineState × Text) : Prop where
  lowered : Text.Lowered text outcome.2
  kept : outcome.2 = text ↔ settled
  grows : state.counts.changes ≤ outcome.1.counts.changes
  counted : outcome.1.counts.changes = state.counts.changes ↔ outcome.2 = text
  catalog : outcome.1.catalog = state.catalog

namespace Accounts

variable {state after : PipelineState} {text first second result : Text}
  {settled : Prop} {middle outcome : PipelineState × Text}

theorem unchanged (holds : settled) (counts : after.counts = state.counts)
    (catalog : after.catalog = state.catalog) :
    Accounts state text settled (after, text) := by
  constructor
  · exact .refl text
  · exact iff_of_true rfl holds
  · exact Nat.le_of_eq (congrArg _ counts.symm)
  · exact iff_of_true (congrArg _ counts) rfl
  · exact catalog

theorem changed (fails : ¬settled) (lower : result.rank < text.rank)
    (more : state.counts.changes < after.counts.changes)
    (catalog : after.catalog = state.catalog) :
    Accounts state text settled (after, result) := by
  have other : result ≠ text := fun same =>
    Nat.ne_of_lt lower (congrArg Text.rank same)
  constructor
  · exact .inr lower
  · exact iff_of_false other fails
  · exact Nat.le_of_lt more
  · exact iff_of_false (Nat.ne_of_gt more) other
  · exact catalog

theorem trans (later : Text → Prop)
    (earlier : Accounts state text settled middle)
    (rest : Accounts middle.1 middle.2 (later middle.2) outcome) :
    Accounts state text (settled ∧ later text) outcome := by
  have both := earlier.lowered.trans_eq_iff rest.lowered
  constructor
  · exact earlier.lowered.trans rest.lowered
  · rw [both, ← earlier.kept, rest.kept]
    constructor
    · rintro ⟨same, holds⟩
      exact ⟨same, same ▸ holds⟩
    · rintro ⟨same, holds⟩
      exact ⟨same, same.symm ▸ holds⟩
  · exact Nat.le_trans earlier.grows rest.grows
  · rw [both, ← earlier.counted, ← rest.counted]
    have grows := earlier.grows
    have growsLater := rest.grows
    omega
  · exact rest.catalog.trans earlier.catalog

theorem append {later : Prop} (front : Accounts state first settled middle)
    (behind : Accounts middle.1 second later outcome) :
    Accounts state (first ++ second) (settled ∧ later) (outcome.1,
      middle.2 ++ outcome.2) := by
  have both := front.lowered.append_eq_iff behind.lowered
  constructor
  · exact front.lowered.append behind.lowered
  · rw [both, front.kept, behind.kept]
  · exact Nat.le_trans front.grows behind.grows
  · rw [both, ← front.counted, ← behind.counted]
    have grows := front.grows
    have growsLater := behind.grows
    dsimp only
    omega
  · exact behind.catalog.trans front.catalog

end Accounts

section

variable (atLineStart : Bool) (state : PipelineState) (text : Text)

theorem TableOptions.accounts (noMetadata : state.catalog.isEmpty = true) :
    Accounts state text True (apply state text) := by
  obtain ⟨same, catalog, counts⟩ := apply_of_isEmpty state text noMetadata
  rw [show apply state text = ((apply state text).1, text) from
    Prod.ext rfl same]
  exact .unchanged trivial counts catalog

theorem TimeZone.accounts :
    Accounts state text (Settled atLineStart text)
      (apply atLineStart state text) := by
  have split := (splitStatement_spec text).1
  unfold apply Settled
  dsimp only
  generalize splitStatement text = parts at split ⊢
  obtain ⟨lead, body⟩ := parts
  subst split
  split
  · next begins =>
    split
    · next normalized found =>
      apply Accounts.changed
      · simp [begins, found]
      · rw [Text.rank_append, Text.rank_append]
        exact Nat.add_lt_add_left (rank_normalize?_lt found) _
      · simp only [StageCounts.changes]
        omega
      · rfl
    · next none => exact .unchanged (fun _ => none) rfl rfl
  · next begins => exact .unchanged (fun holds => absurd holds begins) rfl rfl

theorem DropStatement.accounts :
    Accounts state text (Settled text) (apply atLineStart state text) := by
  cases found : find? (text.drop (statementOffset text)) with
  | none =>
      rw [apply, found]
      exact .unchanged found rfl rfl
  | some drop =>
      have unsettled : ¬Settled text := by simp [Settled, found]
      have lower := rank_apply_lt atLineStart state unsettled
      rw [apply, found] at lower ⊢
      apply Accounts.changed unsettled lower
      · simp only [StageCounts.changes]
        omega
      · rfl

theorem Volatile.accounts :
    Accounts state text (Settled text) (apply state text) := by
  have split := (splitStatement_spec text).1
  unfold apply Settled
  dsimp only
  generalize splitStatement text = parts at split ⊢
  obtain ⟨lead, body⟩ := parts
  dsimp only at split ⊢
  subst split
  have leadLowered := lowered_stripTimes true lead
  obtain ⟨newBody, bodyEq, bodyLowered, bodySettled⟩ : ∃ newBody,
      (if Ddl.isCreateTable body then resetCounters {} none body else body) =
        newBody ∧
        Text.Lowered body newBody ∧
        ((Ddl.isCreateTable body = true → resetCounters {} none body = body) ↔
          newBody = body) := by
    cases creates : Ddl.isCreateTable body with
    | true => exact ⟨_, rfl, lowered_resetCounters {} none body, by simp⟩
    | false => exact ⟨_, rfl, .refl body, by simp⟩
  have both := leadLowered.append_eq_iff bodyLowered
  rw [bodyEq, bodySettled]
  constructor
  · exact leadLowered.append bodyLowered
  · exact both
  · simp only [StageCounts.changes]
    omega
  · rw [both]
    simp only [StageCounts.changes]
    split <;> split <;> simp_all
  · rfl

theorem Stage.accounts (stage : Stage)
    (noMetadata : state.catalog.isEmpty = true) :
    Accounts state text (stage.Settled atLineStart text)
      (stage.apply atLineStart state text) := by
  cases stage with
  | tableOptions => exact TableOptions.accounts state text noMetadata
  | timeZone => exact TimeZone.accounts atLineStart state text
  | dropStatement => exact DropStatement.accounts atLineStart state text
  | volatile => exact Volatile.accounts state text

end

theorem Stage.settled_nil (stage : Stage) (atLineStart : Bool) :
    stage.Settled atLineStart [] := by
  have accounts := stage.accounts atLineStart {} [] rfl
  exact accounts.kept.mp (accounts.lowered.eq_of_rank_le (Nat.zero_le _))

theorem Stage.applyAll_accounts (atLineStart : Bool) (stages : List Stage)
    (state : PipelineState) (text : Text)
    (noMetadata : state.catalog.isEmpty = true) :
    Accounts state text (∀ stage ∈ stages, stage.Settled atLineStart text)
      (applyAll atLineStart stages state text) := by
  induction stages generalizing state text with
  | nil => exact .unchanged (List.forall_mem_nil _) rfl rfl
  | cons stage stages ih =>
      cases text with
      | nil =>
          exact .unchanged (fun stage _ => stage.settled_nil atLineStart) rfl
            rfl
      | cons head tail =>
          have first :=
            stage.accounts atLineStart state (head :: tail) noMetadata
          have rest := ih (stage.apply atLineStart state (head :: tail)).1
            (stage.apply atLineStart state (head :: tail)).2
              (first.catalog ▸ noMetadata)
          have both := first.trans (fun text => ∀ stage ∈ stages,
            stage.Settled atLineStart text)
            rest
          simp only [List.forall_mem_cons]
          exact both

namespace Pipeline

private theorem process_accounts (pipeline : Pipeline) (unit : StatementUnit)
    (noMetadata : pipeline.state.catalog.isEmpty = true) :
    Accounts pipeline.state unit.text (unit.Settled pipeline.stages)
        ((pipeline.process unit).1.state, (pipeline.process unit).2) ∧
      (pipeline.process unit).1.stages = pipeline.stages := by
  have applied := Stage.applyAll_accounts unit.atLineStart pipeline.stages
    pipeline.state unit.text
    noMetadata
  unfold process StatementUnit.Settled
  split
  · next directive => exact ⟨.unchanged (.inl directive) rfl rfl, rfl⟩
  · next other =>
      refine ⟨?_, rfl⟩
      rw [or_iff_right other]
      exact applied

/-- Without metadata a pipeline returns the units exactly if all of them are
settled, and it counts a change exactly if it does not. -/
theorem processAll_accounts (pipeline : Pipeline) (units : List StatementUnit)
    (noMetadata : pipeline.state.catalog.isEmpty = true) :
    Accounts pipeline.state (units.flatMap StatementUnit.text)
      (∀ unit ∈ units, unit.Settled pipeline.stages)
      ((pipeline.processAll units).1.state,
        (pipeline.processAll units).2.flatten) := by
  induction units generalizing pipeline with
  | nil => exact .unchanged (List.forall_mem_nil _) rfl rfl
  | cons unit units ih =>
      obtain ⟨first, sameStages⟩ := pipeline.process_accounts unit noMetadata
      have rest := ih (pipeline.process unit).1 (first.catalog ▸ noMetadata)
      rw [sameStages] at rest
      simp only [List.forall_mem_cons]
      exact first.append rest

end Pipeline

end SqlDump
