import SqlDump.Command
import SqlDump.Proofs.Command.Copy
import SqlDump.Proofs.Glob.Files

/-!
# Batches

The cleaning command on a pattern is a batch over the files that the pattern
names.  It answers for all of them, but it keeps the copies of all of them only
if no two different ones share a path.
-/

namespace SqlDump

open FileTree

variable {codec : Codec} {settings : Settings} {directory : Text}
  {tree next after : FileTree}

namespace CleanArguments

variable {arguments : CleanArguments}

theorem run_runJob (codec : Codec) (job : Job) (tree : FileTree) :
    (runJob codec job : StateM FileTree (JobResult Rat × Nat)).run tree =
      (((job.runOn codec (Job.never (α := Rat)) tree).1, 0),
        (job.runOn codec (Job.never (α := Rat)) tree).2) := rfl

/-- The rest of a batch done on a tree of files. -/
def runFilesOn (codec : Codec) (arguments : CleanArguments)
    (settings : Settings) (directory : Text) (total : Nat)
    (result : BatchResult) (index : Nat) (inputs : List Text)
    (tree : FileTree) : BatchResult × FileTree :=
  (arguments.runFiles codec settings directory total result index inputs :
    StateM FileTree _).run tree

private theorem failures_of_runFilesOn (total : Nat) (result : BatchResult)
    (index : Nat) (inputs : List Text)
    (succeeds : (arguments.runFilesOn codec settings directory total result
        index inputs tree).1.failures = []) : result.failures = [] := by
  induction inputs generalizing result index tree with
  | nil => exact succeeds
  | cons input inputs ih =>
      rw [runFilesOn, runFiles, run_bind, run_runJob] at succeeds
      dsimp only at succeeds
      split at succeeds
      · have noFailures := ih _ _ succeeds
        exact noFailures
      · split at succeeds
        · rw [run_pure] at succeeds
          simp at succeeds
        · simpa using ih _ _ succeeds

/-- The files of a batch that does not fail are copied one after the other. -/
theorem runFilesOn_batch (writes : arguments.dryRun = false) (total : Nat)
    (result : BatchResult) (index : Nat) (inputs : List Text)
    (succeeds : (arguments.runFilesOn codec settings directory total result
        index inputs tree).1.failures = []) :
    ∃ copies, copies.map (fun copy => (copy.input, copy.index)) =
      inputs.zipIdx index ∧
      Batch codec settings directory tree copies
        (arguments.runFilesOn codec settings directory total result index inputs
          tree).2 := by
  induction inputs generalizing result index tree with
  | nil => exact ⟨[], rfl, .nil tree⟩
  | cons input inputs ih =>
      rw [runFilesOn, runFiles, run_bind, run_runJob, writes] at succeeds ⊢
      dsimp only at succeeds ⊢
      split at succeeds
      · rename_i stats outcome
        obtain ⟨copies, same, rest⟩ := ih _ _ succeeds
        let job :=
          settings.job input (some (Inputs.outputPath directory index input))
            false
        refine ⟨⟨input, index,
          (job.runOn codec (Job.never (α := Rat)) tree).1.text⟩ :: copies, ?_,
          .cons ⟨⟨stats, outcome⟩, rfl, rfl⟩ ?_⟩
        · rw [List.map_cons, same, List.zipIdx_cons]
        · exact rest
      · split at succeeds
        · rw [run_pure] at succeeds
          simp at succeeds
        · simpa using failures_of_runFilesOn _ _ _ _ succeeds

private theorem failures_of_batchTranscript {total : Nat} {result : BatchResult}
    (succeeds : (arguments.batchTranscript total result).exitCode = 0) :
    result.failures = [] := by
  cases failures : result.failures with
  | nil => rfl
  | cons failure others => simp [batchTranscript, failures] at succeeds

theorem runBatch_batch (writes : arguments.dryRun = false) (inputs : List Text)
    (succeeds : ((arguments.runBatch codec settings directory inputs :
      StateM FileTree Transcript).run tree).1.exitCode = 0) :
    ∃ base copies, tree.Grown base ∧
      copies.map (fun copy => (copy.input, copy.index)) = inputs.zipIdx ∧
      Batch codec settings directory base copies
        ((arguments.runBatch codec settings directory inputs :
          StateM FileTree Transcript).run tree).2 := by
  unfold runBatch at succeeds ⊢
  rw [writes, if_neg Bool.false_ne_true, run_bind] at succeeds ⊢
  rcases (does_ensureDirectories directory tree).cases with
    ⟨failure, base, made, grown⟩ | ⟨value, base, made, grown⟩
  · rw [made] at succeeds
    exact absurd succeeds Nat.one_ne_zero
  · rw [made] at succeeds ⊢
    dsimp only at succeeds ⊢
    rw [run_bind] at succeeds ⊢
    have noFailures := failures_of_batchTranscript succeeds
    obtain ⟨copies, same, batch⟩ :=
      runFilesOn_batch writes _ _ 0 inputs noFailures
    exact ⟨base, copies, grown, same, batch⟩

end CleanArguments

namespace Settings

private theorem calm_of_text (path : Text) (tree : FileTree) :
    ((Host.text path : StateM FileTree _).run tree).2.calm = tree.calm := by
  have content : ((Host.content path : StateM FileTree _).run tree).2.calm =
      tree.calm := by
    simp only [Host.content, inspect, attempt, StateT.run]
    cases tree.nextFault.1 with
    | some fault => rfl
    | none => cases tree.nextFault.2.content path <;> rfl
  unfold Host.text
  rw [run_bind]
  split
  · exact content
  · split
    · exact content
    · exact content

private theorem load_run_ok {path : Text} {config : Config}
    (ran : (Config.load path : StateM FileTree _).run tree =
        (.ok config, next)) :
    next.calm = tree.calm ∧ tree.answer (Config.load path) = .ok config := by
  have calm := calm_of_text path tree
  unfold Config.load answer at *
  rw [run_bind] at ran ⊢
  rcases (does_text path tree).cases with
    ⟨failure, between, opened, -⟩ | ⟨text, between, opened, -, answered⟩
  · rw [opened] at ran
    cases ran
  · unfold answer at answered
    rw [opened] at ran calm
    rw [answered]
    dsimp only at ran ⊢
    cases found : (Yaml.parse? text).bind Config.ofDocument? with
    | none =>
        rw [found] at ran
        cases ran
    | some read =>
        rw [found] at ran
        obtain ⟨same, rfl⟩ := Prod.mk.inj ran
        exact ⟨calm, same⟩

/-- Settings are read from the files as they are, and change nothing but the
faults ahead. -/
theorem resolve_run_ok {arguments : CleanArguments}
    (ran : (resolve arguments : StateM FileTree _).run tree =
        (.ok settings, next)) :
    next.calm = tree.calm ∧ tree.answer (resolve arguments) = .ok settings := by
  unfold resolve answer at *
  split at ran
  · obtain ⟨found, rfl⟩ := Prod.mk.inj ran
    exact ⟨rfl, found⟩
  · rename_i path _
    rw [run_bind] at ran ⊢
    rcases loaded : (Config.load path : StateM FileTree _).run
      tree with ⟨failure | config, between⟩
    · rw [loaded] at ran
      cases ran
    · obtain ⟨calm, answered⟩ := load_run_ok loaded
      unfold answer at answered
      rw [loaded] at ran
      obtain ⟨same, rfl⟩ := Prod.mk.inj ran
      rw [answered]
      exact ⟨calm, same⟩

end Settings

namespace CleanArguments

variable {arguments : CleanArguments} {inputs : List Text}

/-- The command done on a tree of files. -/
def runOn (codec : Codec) (arguments : CleanArguments) (tree : FileTree) :
    Transcript × FileTree :=
  (arguments.run codec : StateM FileTree Transcript).run tree

theorem resolve_of_pattern (pattern : Glob.isPattern arguments.input = true)
    (matched : tree.answer (Glob.files arguments.input) = .ok inputs) :
    (Inputs.resolve arguments.input : StateM FileTree _).run tree =
      (if inputs = [] then .error (.noMatch arguments.input)
        else .ok (.batch inputs), tree) := by
  unfold Inputs.resolve
  rw [if_pos pattern, run_bind, Glob.looks_files, matched]
  cases inputs <;> rfl

theorem runOn_of_pattern {ready : FileTree}
    (resolved : (Settings.resolve arguments : StateM FileTree _).run tree =
        (.ok settings, ready)) (pattern : Glob.isPattern arguments.input = true)
    (matched : tree.answer (Glob.files arguments.input) = .ok inputs)
    (nonempty : inputs ≠ []) (toDirectory : arguments.output = some directory) :
    arguments.runOn codec tree =
      (arguments.runBatch codec settings directory inputs :
        StateM FileTree Transcript).run ready := by
  obtain ⟨calm, -⟩ := Settings.resolve_run_ok resolved
  have matchedReady :=
    (answer_of_calm calm (Glob.files arguments.input)).trans matched
  unfold runOn run
  rw [run_bind, resolved]
  dsimp only
  rw [run_bind, resolve_of_pattern pattern matchedReady, if_neg nonempty,
    toDirectory]

/-- A command on a pattern that does not fail copies the files that the pattern
names. -/
theorem runOn_batch (pattern : Glob.isPattern arguments.input = true)
    (matched : tree.answer (Glob.files arguments.input) = .ok inputs)
    (toDirectory : arguments.output = some directory)
    (writes : arguments.dryRun = false)
    (succeeds : (arguments.runOn codec tree).1.exitCode = 0) :
    ∃ settings base copies, tree.answer (Settings.resolve arguments) =
      .ok settings ∧
      tree.Grown base ∧
        copies.map (fun copy => (copy.input, copy.index)) = inputs.zipIdx ∧
      Batch codec settings directory base copies
        (arguments.runOn codec tree).2 := by
  rcases resolved : (Settings.resolve arguments : StateM FileTree _).run
    tree with
    ⟨failure | settings, ready⟩
  · unfold runOn run at succeeds
    rw [run_bind, resolved] at succeeds
    exact absurd succeeds Nat.one_ne_zero
  · obtain ⟨calm, answered⟩ := Settings.resolve_run_ok resolved
    have alike : tree.Alike ready :=
      tree.alike_calm.trans (calm ▸ ready.alike_calm.symm)
    by_cases nothing : inputs = []
    · have matchedReady :=
        (answer_of_calm calm (Glob.files arguments.input)).trans matched
      unfold runOn run at succeeds
      rw [run_bind, resolved] at succeeds
      dsimp only at succeeds
      rw [run_bind, resolve_of_pattern pattern matchedReady, if_pos nothing]
        at succeeds
      exact absurd succeeds Nat.one_ne_zero
    · rw [runOn_of_pattern resolved pattern matched nothing toDirectory]
        at succeeds ⊢
      obtain ⟨base, copies, grown, same, batch⟩ :=
        runBatch_batch writes inputs succeeds
      exact ⟨settings, base, copies, answered,
        (Grown.ofAlike alike).trans grown, same, batch⟩

/-- The copies of the inputs of a batch that began in the first tree and ended
in the second. -/
structure Copies (codec : Codec) (settings : Settings) (directory : Text)
    (inputs : List Text) (tree after : FileTree) (copies : List Copy) :
    Prop where
  inputs_eq : copies.map (fun copy => (copy.input, copy.index)) = inputs.zipIdx
  /-- Every input is cleaned, and from what was in it at the start. -/
  cleans : ∀ copy ∈ copies, ∃ met content,
    tree.Spares met (fun place => ¬ after.InDirectory directory place) ∧
    tree.content copy.input = .ok content ∧
      met.content copy.input = .ok content ∧
    (copy.job settings directory).Cleans codec met content copy.text
  kept_of_last : ∀ front copy back, copies = front ++ copy :: back →
    (∀ later ∈ back, later.path directory ≠ copy.path directory) →
    copy.Kept directory after
  kept_iff : (∀ copy ∈ copies, copy.Kept directory after) ↔
    ∀ first ∈ copies, ∀ second ∈ copies, first.path directory =
      second.path directory →
      first.text = second.text
  path_eq_iff : ∀ first second : Copy, first.path directory =
    second.path directory ↔
    first.name = second.name

theorem copies_of_batch {base : FileTree} {copies : List Copy}
    (grown : tree.Grown base)
    (same : copies.map (fun copy => (copy.input, copy.index)) = inputs.zipIdx)
    (batch : Batch codec settings directory base copies after)
    (regular : ∀ input ∈ inputs, ∃ content, tree.content input = .ok content)
    (apart : ∀ input ∈ inputs, ∀ place, tree.locate input = .ok place →
      ¬ after.InDirectory directory place) :
    Copies codec settings directory inputs tree after copies where
  inputs_eq := same
  cleans := by
    intro copy member
    obtain ⟨met, next, spared, made⟩ := batch.made member
    have sparedSinceStart := (Spares.ofGrown grown _).trans spared
    have isInput : copy.input ∈ inputs := by
      have paired := List.mem_map_of_mem (f := fun copy : Copy =>
        (copy.input, copy.index)) member
      rw [same] at paired
      exact List.fst_mem_of_mem_zipIdx paired
    obtain ⟨content, stored⟩ := regular copy.input isInput
    have metStored := sparedSinceStart.content (apart copy.input isInput) stored
    exact ⟨met, content, sparedSinceStart, stored, metStored,
      made.cleans metStored⟩
  kept_of_last := fun _ _ _ split last => batch.kept_of_last split last
  kept_iff := batch.kept_iff
  path_eq_iff := fun _ _ => Copy.path_eq_iff

/-- A batch over any list of files that can be read, with any settings, cleans
every one of them if it does not fail, and the last copy with a path is in the
directory.  All copies are there if and only if copies with the same path have
the same text, and copies have the same path if and only if they have the same
name.  So it is with the batch of a command on a pattern, over the files that
the pattern names and with the settings of the command. -/
theorem runOn_keeps_copies_iff (codec : Codec) (arguments : CleanArguments)
    (tree : FileTree) (directory : Text) (inputs : List Text)
    (writes : arguments.dryRun = false) :
    (∀ settings,
      (∀ input ∈ inputs, ∃ content, tree.content input = .ok content) →
      let ran := (arguments.runBatch codec settings directory inputs :
        StateM FileTree Transcript).run tree
      ran.1.exitCode = 0 →
      (∀ input ∈ inputs, ∀ place, tree.locate input = .ok place →
        ¬ ran.2.InDirectory directory place) →
      ∃ copies, Copies codec settings directory inputs tree ran.2 copies) ∧
    (Glob.isPattern arguments.input = true →
      tree.answer (Glob.files arguments.input) = .ok inputs →
      arguments.output = some directory →
      let ran := arguments.runOn codec tree
      ran.1.exitCode = 0 →
      (∀ input ∈ inputs, ∀ place, tree.locate input = .ok place →
        ¬ ran.2.InDirectory directory place) →
      ∃ settings copies, tree.answer (Settings.resolve arguments) =
        .ok settings ∧
        Copies codec settings directory inputs tree ran.2 copies) := by
  constructor
  · intro settings regular ran succeeds apart
    obtain ⟨base, copies, grown, same, batch⟩ :=
      runBatch_batch writes inputs succeeds
    exact ⟨copies, copies_of_batch grown same batch regular apart⟩
  · intro pattern matched toDirectory ran succeeds apart
    obtain ⟨settings, base, copies, answered, grown, same, batch⟩ :=
      runOn_batch pattern matched toDirectory writes succeeds
    have regular (input : Text) (member : input ∈ inputs) :
        ∃ content, tree.content input = .ok content :=
      Glob.content_of_mem_files matched member
    exact ⟨settings, copies, answered,
      copies_of_batch grown same batch regular apart⟩

/-- Three dumps, two of them with the same name. -/
def shelf : FileTree :=
  (((FileTree.emptyAt ["work".toList]).addFile "a/x.sql".toList
    (Text.encode "/*!40101 SET a=1 */;\n".toList)).addFile "a/y.sql".toList
      (Text.encode "SET y=1;\n".toList)).addFile "b/x.sql".toList
        (Text.encode "/*!40101 SET b=2 */;\n".toList)

def shelfArguments (pattern : Text) : CleanArguments where
  input := pattern
  output := some "out".toList

theorem runOn_shelf {pattern : Text} (isPattern : Glob.isPattern pattern = true)
    (matched : shelf.answer (Glob.files pattern) = .ok inputs)
    (nonempty : inputs ≠ []) :
    (shelfArguments pattern).runOn Codec.refusing shelf =
      ((shelfArguments pattern).runBatch Codec.refusing { options := {} }
        "out".toList inputs :
        StateM FileTree Transcript).run shelf :=
  runOn_of_pattern rfl isPattern matched nonempty rfl

theorem runOn_keeps_shelf :
    let arguments := shelfArguments "a/*.sql".toList
    let inputs := ["a/x.sql".toList, "a/y.sql".toList]
    let after := (arguments.runOn Codec.refusing shelf).2
    Glob.isPattern arguments.input = true ∧
      shelf.answer (Glob.files arguments.input) = .ok inputs ∧
      arguments.output = some "out".toList ∧ arguments.dryRun = false ∧
      (arguments.runOn Codec.refusing shelf).1.exitCode = 0 ∧
      (∀ input ∈ inputs, ∀ place, shelf.locate input = .ok place →
        ¬ after.InDirectory "out".toList place) ∧
      ∃ copies : List Copy, copies.map (fun copy => (copy.input, copy.index)) =
        inputs.zipIdx ∧
        ∀ copy ∈ copies, copy.Kept "out".toList after := by
  have isPattern : Glob.isPattern "a/*.sql".toList = true := by decide +kernel
  have matched : shelf.answer (Glob.files "a/*.sql".toList) =
      .ok ["a/x.sql".toList, "a/y.sql".toList] :=
    Glob.answer_files_of_sorted ["a".toList.map .char,
      .anySequence :: ".sql".toList.map .char]
      (by decide +kernel) (by decide +kernel) (by decide +kernel)
        (by decide +kernel)
  have run := runOn_shelf isPattern matched (List.cons_ne_nil _ _)
  have succeeds :
      ((shelfArguments "a/*.sql".toList).runOn Codec.refusing
        shelf).1.exitCode = 0 := by
    rw [run]
    decide +kernel
  have apart : ∀ input ∈ ["a/x.sql".toList, "a/y.sql".toList], ∀ place,
      shelf.locate input = .ok place →
      ¬ ((shelfArguments "a/*.sql".toList).runOn Codec.refusing
        shelf).2.InDirectory "out".toList
        place := by
    intro input member place located inside
    obtain ⟨here, name, front, same⟩ := inside.eq_append
    have out :
        ((shelfArguments "a/*.sql".toList).runOn Codec.refusing shelf).2.frontOf
        (Path.join "out".toList []) = .ok ["work".toList, "out".toList] := by
      rw [run]
      exact eq_ok_of_toOption (by decide +kernel)
    have inA : ∀ input ∈ ["a/x.sql".toList, "a/y.sql".toList],
        (shelf.locate input).toOption.map (·[1]?) = some (some "a".toList) := by
          decide +kernel
    have second := inA input member
    rw [located, same, ← Except.ok.inj (out.symm.trans front)] at second
    have sameName : some "out".toList = some "a".toList :=
      Option.some.inj second
    exact absurd sameName (by decide +kernel)
  obtain ⟨settings, copies, -, keeps⟩ :=
    (runOn_keeps_copies_iff Codec.refusing (shelfArguments "a/*.sql".toList)
      shelf
      "out".toList ["a/x.sql".toList, "a/y.sql".toList] rfl).2 isPattern matched
        rfl
      succeeds apart
  have same := keeps.inputs_eq
  refine ⟨isPattern, matched, rfl, rfl, succeeds, apart, copies, same,
    keeps.kept_iff.mpr ?_⟩
  obtain ⟨x, others, rfl, isX, rest⟩ := List.map_eq_cons_iff.mp same
  obtain ⟨y, others, rfl, isY, rest⟩ := List.map_eq_cons_iff.mp rest
  obtain rfl := List.map_eq_nil_iff.mp rest
  have pathX : x.path "out".toList = "out/x.sql".toList := by
    rw [Copy.path, (Prod.mk.inj isX).1, (Prod.mk.inj isX).2]
    decide +kernel
  have pathY : y.path "out".toList = "out/y.sql".toList := by
    rw [Copy.path, (Prod.mk.inj isY).1, (Prod.mk.inj isY).2]
    decide +kernel
  have different : "out/x.sql".toList ≠ "out/y.sql".toList := by decide +kernel
  intro first firstMember second secondMember samePath
  simp only [List.mem_cons, List.not_mem_nil, or_false]
    at firstMember secondMember
  rcases firstMember with rfl | rfl <;> rcases secondMember with rfl | rfl
  · rfl
  · exact absurd (pathX.symm.trans (samePath.trans pathY)) different
  · exact absurd (pathX.symm.trans (samePath.symm.trans pathY)) different
  · rfl

/-- Two dumps with the same name in different directories have one copy, that of
the second one, though the command succeeds for both. -/
theorem run_loses_copy :
    let inputs := ["a/x.sql".toList, "b/x.sql".toList]
    let ran :=
      (Command.run ["clean".toList, "*/x.sql".toList, "-o".toList,
      "out".toList] :
      StateM FileTree Transcript).run shelf
    shelf.answer (Glob.files "*/x.sql".toList) = .ok inputs ∧ inputs.Nodup ∧
      (shelf.find "out".toList).toOption = none ∧ ran.1.exitCode = 0 ∧
      (cleanBytes {} {} (Text.encode "/*!40101 SET a=1 */;\n".toList)).1 =
        "SET a=1;\n".toList ∧
      shelf.changedFiles ran.2 =
        [("out/x.sql".toList, Text.encode "SET b=2;\n".toList)] := by
  have isPattern : Glob.isPattern "*/x.sql".toList = true := by decide +kernel
  have matched : shelf.answer (Glob.files "*/x.sql".toList) =
      .ok ["a/x.sql".toList, "b/x.sql".toList] :=
    Glob.answer_files_of_sorted [[.anySequence],
      "x.sql".toList.map .char] (by decide +kernel)
      (by decide +kernel) (by decide +kernel) (by decide +kernel)
  have parsed : Command.parse ["clean".toList, "*/x.sql".toList, "-o".toList,
      "out".toList] =
      .ok (.clean (shelfArguments "*/x.sql".toList)) :=
        eq_ok_of_toOption (by decide +kernel)
  have run :
      (Command.run ["clean".toList, "*/x.sql".toList, "-o".toList,
      "out".toList] :
      StateM FileTree Transcript).run shelf =
        ((shelfArguments "*/x.sql".toList).runBatch Codec.refusing { options :=
          {} } "out".toList
          ["a/x.sql".toList, "b/x.sql".toList] : StateM FileTree Transcript).run
            shelf := by
    unfold Command.run
    rw [parsed]
    exact runOn_shelf isPattern matched (List.cons_ne_nil _ _)
  dsimp only
  rw [run]
  exact ⟨matched, by decide +kernel, by decide +kernel, by decide +kernel,
    by decide +kernel, by decide +kernel⟩

end CleanArguments

end SqlDump
