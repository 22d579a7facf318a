import SqlDump.Proofs.Job.Run

/-!
# What a job leaves behind

Whatever goes wrong and wherever it does, a job that fails changes no file.  A
job that succeeds changes at most the file that it was to write, and as a whole.
-/

namespace SqlDump

open FileTree Output

/-- The files of a tree are those of another one. -/
def FileTree.SameFiles (before after : FileTree) : Prop :=
  ∀ place, after.file? place = before.file? place

/-- The files of a tree are those of another one, but for the file that a path
leads to, which has the given size. -/
def FileTree.OnlyWritten (before : FileTree) (path : Text) (size : Nat)
    (after : FileTree) : Prop :=
  ∃ place content, after.locate path = .ok place ∧
    after.file? place = some content ∧
    content.length = size ∧ ∀ other, other ≠ place →
      after.file? other = before.file? other

namespace Job

variable {α : Type} [Percentage α] {tree after : FileTree}

theorem files_of_delivered {base : FileTree} {job : Job} {content : Bytes}
    (grown : tree.Grown base)
    (delivered : Delivered base job.destination content after) :
    match job.output, job.dryRun with
    | some path, false => tree.OnlyWritten path content.length after
    | _, _ => tree.SameFiles after := by
  unfold destination at delivered
  cases dry : job.dryRun with
  | true =>
      rw [dry] at delivered
      have same : tree.SameFiles after := fun place =>
        (Alike.file? delivered place).trans (grown.file? place)
      cases job.output <;> exact same
  | false =>
      rw [dry] at delivered
      cases output : job.output with
      | none =>
          rw [output] at delivered
          exact fun place =>
            (Alike.file? delivered place).trans (grown.file? place)
      | some path =>
          rw [output] at delivered
          obtain ⟨place, published⟩ := delivered
          exact ⟨place, content, published.located, published.file?_place, rfl,
            fun other different =>
              (published.file?_of_ne different).trans (grown.file? other)⟩

/-- A job that fails leaves no trace, and one that succeeds leaves nothing but
its output. -/
theorem runOn_leaves_only_output (codec : Codec) (job : Job)
    (raised : Nat → List (Progress α) → Bool) (tree : FileTree) :
    let result := (job.runOn codec raised tree).1
    let after := (job.runOn codec raised tree).2
    match result.outcome with
    | .error _ => tree.SameFiles after
    | .ok stats =>
        match job.output, job.dryRun with
        | some path, false => tree.OnlyWritten path stats.bytesWritten after
        | _, _ => tree.SameFiles after := by
  dsimp only
  cases outcome : (job.runOn codec raised tree).1.outcome with
  | error failure => exact (grown_of_runOn outcome).file?
  | ok stats =>
      obtain ⟨success⟩ := success_of_runOn outcome
      have size : stats.bytesWritten =
          (job.runOn codec raised tree).1.text.encode.length :=
        congrArg CleanStats.bytesWritten success.cleaned.stats_eq
      dsimp only
      rw [size]
      exact files_of_delivered success.grown success.delivered

/-- A dump, a preamble and the result of an earlier run. -/
def shopTree : FileTree :=
  (((FileTree.emptyAt ["work".toList]).addFile "shop.sql".toList
    (Text.encode "SET a=1;\n/*!40101 SET b=2 */;\n".toList)).addFile
      "top.sql".toList
      (Text.encode "-- top".toList)).addFile "out/shop.sql".toList
        (Text.encode "-- old\n".toList)

def shopJob : Job where
  input := "shop.sql".toList
  output := some "out/shop.sql".toList
  catalogFile := some "tables.tsv".toList
  databaseName := some "shop".toList
  preambleFile := some "top.sql".toList
  chunkSize := some 4
  observed := true

/-- The shop with a fault as the finished draft is to take its place. -/
def brokenShopTree : FileTree :=
  { shopTree with
    faults := List.replicate 7 none ++ [some { failure := .busy }] }

example :
    (shopJob.runOn Codec.refusing (fun _ (_ : List (Progress Rat)) => false)
    brokenShopTree).2.nodes = shopTree.nodes := by
  decide +kernel

end Job

end SqlDump
