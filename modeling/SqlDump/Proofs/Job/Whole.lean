import SqlDump.Proofs.FileTree.Directory
import SqlDump.Proofs.Job.Refinement

/-!
# Jobs that nothing stops

A job that nothing stops reads its input to the end, so what it writes is the
cleaned text of the whole input.
-/

namespace SqlDump

open FileTree Output

namespace Read

/-- The bytes of all reads up to the end of the input. -/
def whole : List Read → Except FileError Bytes
  | [] => .ok []
  | read :: reads =>
      match read.outcome with
      | .error failure => .error failure
      | .ok [] => .ok []
      | .ok (head :: tail) => (whole reads).map (head :: tail ++ ·)

private theorem whole_eq_givenBy {reads : List Read} {count : Nat}
    (nonempty : ∀ read ∈ reads.take count, read.bytes ≠ [])
    (ended : ∀ read, reads[count]? = some read → read.outcome = .ok []) :
    whole reads = .ok (Job.givenBy reads count) := by
  induction reads generalizing count with
  | nil => simp [whole, Job.givenBy]
  | cons read reads ih =>
      cases count with
      | zero => simp [whole, Job.givenBy, ended read rfl]
      | succ count =>
          have rest : whole reads = .ok (Job.givenBy reads count) :=
            ih (fun later member =>
              nonempty later (List.mem_cons_of_mem _ member))
              fun later found => ended later found
          have more : read.bytes ≠ [] := nonempty read (by simp)
          cases outcome : read.outcome with
          | error failure => simp [bytes, outcome] at more
          | ok given =>
              cases given with
              | nil => simp [bytes, outcome] at more
              | cons head tail =>
                  simp only [whole, outcome, rest, Except.map, Job.givenBy,
                    List.take_succ_cons, List.map_cons, List.flatten_cons,
                    bytes]

end Read

namespace Job

def never (_ : Nat) (_ : List (Progress α)) : Bool :=
  false

/-- `text` is the lead of the job and the cleaned text of its input, whose file
has the given content.  The input is the content itself, or what the codec makes
of it. -/
def Cleans (codec : Codec) (job : Job) (tree : FileTree) (content : Bytes)
    (text : Text) : Prop :=
  ∃ catalog warnings front fault reads input,
    tree.answer job.loadCatalog = .ok (catalog, warnings) ∧
    job.LeadsWith tree front ∧
    (job.openInput codec content.length
      (tree.storedWith job.input fault)).reads = .ok reads ∧
    Read.whole reads = .ok input ∧
    (Compression.ofPath job.input = .none → input = content) ∧
    text = front ++ (cleanBytes (job.optionsFor catalog) catalog input).1

variable {α : Type} [Percentage α] {codec : Codec} {job : Job}
  {tree after : FileTree}

theorem Success.cleans {stats : CleanStats} {text : Text} {content : Bytes}
    (success : Success codec job (never (α := α)) tree stats text after)
    (stored : tree.content job.input = .ok content) :
    job.Cleans codec tree content text := by
  have read := success.cleaned.read
  have calm : stats.cancelled = false := read.stopped_eq.symm
  refine ⟨success.catalog, success.warnings, success.front, success.fault,
    success.reads, givenBy success.reads success.count, success.loaded,
    success.leads, ?_,
    Read.whole_eq_givenBy read.nonempty (read.ended calm),
    fun uncompressed => success.givenBy_eq uncompressed stored calm, ?_⟩
  · rw [← success.sized content stored]
    exact success.opened
  · have sameText := (success.cleaned.report (job.settled_sessionFor _ _)).1
    rwa [sessionFor, Session.conclude_foldl_warn, ← cleanBytes_eq_conclude]
      at sameText

theorem cleans_of_runOn {stats : CleanStats} {content : Bytes}
    (stored : tree.content job.input = .ok content)
    (succeeds : (job.runOn codec (never (α := α)) tree).1.outcome = .ok stats) :
    job.Cleans codec tree content
      (job.runOn codec (never (α := α)) tree).1.text := by
  obtain ⟨success⟩ := success_of_runOn succeeds
  exact success.cleans stored

theorem gained_of_runOn {raised : Nat → List (Progress α) → Bool}
    {stats : CleanStats} {path : Text} (output : job.destination = .file path)
    (succeeds : (job.runOn codec raised tree).1.outcome = .ok stats) :
    tree.Gained path (job.runOn codec raised tree).1.text.encode
      (job.runOn codec raised tree).2 := by
  obtain ⟨success⟩ := success_of_runOn succeeds
  have delivered := success.delivered
  rw [output] at delivered
  obtain ⟨place, published⟩ := delivered
  exact ⟨success.base, place, success.grown, published⟩

end Job

end SqlDump
