import SqlDump.Proofs.Line.Encoding
import SqlDump.Proofs.Session.Payload

/-!
# Cleaning the output once more

Whatever another run without metadata changes, it lowers the rank of the text.
So the output of a run is a fixed point exactly if each stage of the next run
leaves it alone, and runs that follow one another come to a fixed point.
-/

namespace SqlDump

/-- No guard of the text is taken off, and no unit of it is changed. -/
structure CleanOptions.Settled (options : CleanOptions) (text : Text) :
    Prop where
  guards : GuardsStay options.threshold text
  units : ∀ unit ∈ unitsOf text, unit.Settled options.stages

section

variable (options : CleanOptions) (text : Text)

/-- Another run returns the text exactly if it is settled, which the report of
this run tells, and lowers its rank otherwise. -/
theorem cleanBytes_encode :
    let again := cleanBytes options {} text.encode
    Text.Lowered text again.1 ∧ (again.1 = text ↔ options.Settled text) ∧
      (again.1 = text ↔ again.2.unwrapped = 0 ∧ again.2.counts = {}) := by
  intro again
  let unwrapped := Unwrapper.unwrap
    { threshold := options.threshold, collapse := options.collapse }
    (segmentsOf text)
  let pipeline : Pipeline :=
    { stages := options.stages, state := { schema := options.defaultSchema } }
  obtain ⟨freedLowered, freedSame⟩ :=
    unwrap_lowered options.threshold options.collapse text
  have counted := unwrapped_eq_zero_iff options.threshold options.collapse text
  have accounts := pipeline.processAll_accounts (unitsOf unwrapped.2) rfl
  rw [(unitsOf_spec unwrapped.2).1] at accounts
  have whole : again = cleanWhole options {} text.encode :=
    cleanBytes_eq_cleanWhole options {} text.encode
  obtain ⟨output, unwrappedEq, countsEq⟩ :
      again.1 = (pipeline.processAll (unitsOf unwrapped.2)).2.flatten ∧
        again.2.unwrapped = unwrapped.1.unwrapped ∧
        again.2.counts =
          (pipeline.processAll (unitsOf unwrapped.2)).1.state.counts := by
    rw [whole]
    simp only [cleanWhole, Utf8.decodeLossy_encode,
      PipelineState.counts_foldl_warn]
    exact ⟨rfl, rfl, rfl⟩
  have both : again.1 = text ↔ unwrapped.2 = text ∧ again.1 = unwrapped.2 := by
    rw [output]
    exact freedLowered.trans_eq_iff accounts.lowered
  refine ⟨?_, ?_, ?_⟩
  · rw [output]
    exact freedLowered.trans accounts.lowered
  · rw [both, output, accounts.kept]
    constructor
    · rintro ⟨same, units⟩
      exact ⟨freedSame.mp same, same ▸ units⟩
    · rintro ⟨guards, units⟩
      have same := freedSame.mpr guards
      exact ⟨same, same.symm ▸ units⟩
  · rw [both, output, unwrappedEq, countsEq, ← StageCounts.changes_eq_zero_iff]
    exact and_congr (freedSame.trans counted.symm) accounts.counted.symm

theorem isFixedPoint_iff :
    isFixedPoint options {} text = true ↔
    (cleanBytes options {} text.encode).1 = text :=
  beq_iff_eq

end

/-- The output of so many runs, each on the output of the one before it. -/
def recleaned (options : CleanOptions) : Nat → Text → Text
  | 0, text => text
  | runs + 1, text =>
      recleaned options runs (cleanBytes options {} text.encode).1

/-- Every run that changes something lowers the rank, so there are no more of
them than that. -/
theorem recleaned_isFixedPoint (options : CleanOptions) (text : Text) :
    ∃ runs, runs ≤ text.rank ∧
    isFixedPoint options {} (recleaned options runs text) = true := by
  generalize rankEq : text.rank = bound
  induction bound using Nat.strongRecOn generalizing text with
  | ind bound ih =>
      subst rankEq
      rcases (cleanBytes_encode options text).1 with same | lower
      · exact ⟨0, Nat.zero_le _, (isFixedPoint_iff options text).mpr same⟩
      · obtain ⟨runs, few, fixed⟩ := ih _ lower _ rfl
        exact ⟨runs + 1, Nat.lt_of_le_of_lt few lower, fixed⟩

/-- The output of a run is a fixed point exactly if it is settled: no guard of
it is taken off, and no stage has anything to do on a unit of it.  Its report
tells whether another run changed it.  It need not be settled, but further runs
come to a fixed point. -/
theorem cleanBytes_isFixedPoint_iff (options : CleanOptions) (input : Bytes) :
    let output := (cleanBytes options {} input).1
    let again := cleanBytes options {} output.encode
    (isFixedPoint options {} output = true ↔ options.Settled output) ∧
      (isFixedPoint options {} output = true ↔
        again.2.unwrapped = 0 ∧ again.2.counts = {}) ∧
      ∃ runs,
        isFixedPoint options {} (recleaned options runs output) = true := by
  intro output again
  obtain ⟨-, settled, reported⟩ := cleanBytes_encode options output
  obtain ⟨runs, -, fixed⟩ := recleaned_isFixedPoint options output
  rw [isFixedPoint_iff]
  exact ⟨settled, reported, runs, fixed⟩

/-- The drop in front of it leaves its line to a statement that did not begin
it. -/
def sharedLineDump : Text := "DROP TABLE a; SET time_zone = 'UTC';\n".toList

theorem cleanBytes_sharedLine :
    let options : CleanOptions := { noDrop := true }
    let output := (cleanBytes options {} sharedLineDump.encode).1
    segmentsOf sharedLineDump = [.text sharedLineDump] ∧
      output = " SET time_zone = 'UTC';\n".toList ∧
      (cleanBytes options {} output.encode).1 =
        " SET time_zone = '+00:00';\n".toList ∧
      isFixedPoint options {} output = false := by
  decide +kernel

end SqlDump
