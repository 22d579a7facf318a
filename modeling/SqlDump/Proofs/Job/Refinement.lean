import SqlDump.Proofs.Job.Trace
import SqlDump.Proofs.Session.Prelude

/-!
# A job is a session over the bytes that it reads

What a job on an uncompressed file writes is its lead and the cleaned text of
the bytes that it read before it was stopped, and it reports what a session over
these bytes reports.  How the file is cut into reads, whether anybody observes
and where the output goes plays no part in it.
-/

namespace SqlDump

open FileTree Output

theorem FileTree.Extends.answer_text {before after : FileTree}
    (more : before.Extends after) {path text : Text}
    (found : before.answer (Host.text path) = .ok text) :
    after.answer (Host.text path) = .ok text := by
  rw [FileTree.answer_text] at found ⊢
  cases content : before.content path with
  | error failure =>
      rw [content] at found
      cases found
  | ok bytes =>
      rw [content] at found
      rw [more.content content]
      exact found

namespace Job

variable {α : Type} [Percentage α] {tree after : FileTree} {job : Job}
  {front : Text}

private theorem leadIn_of_extends (more : tree.Extends after)
    (readable : job.leadIn tree = .ok front) :
    job.leadIn after = .ok front := by
  unfold leadIn at readable ⊢
  cases file : job.preambleFile with
  | none =>
      rw [file] at readable
      exact readable
  | some path =>
      rw [file] at readable
      dsimp only at readable ⊢
      cases found : tree.answer (Host.text path) with
      | error failure =>
          rw [found] at readable
          cases readable
      | ok text =>
          rw [found] at readable
          rw [more.answer_text found]
          exact readable

theorem LeadsWith.unique (leads : job.LeadsWith tree front) {readable : Text}
    (found : job.leadIn tree = .ok readable) : front = readable := by
  obtain ⟨-, -, begun, -, -, more, lead⟩ := leads
  rw [leadIn_of_extends more found] at lead
  exact (Except.ok.inj lead).symm

/-- The bytes that a job reads of a file before it sees that it is to stop,
which are all bytes if it never does: so many reads of what can be read of the
file. -/
def TakesIn (job : Job) (raised : Nat → List (Progress α) → Bool)
    (content : Bytes) (stopped : Bool) (bytes : Bytes) : Prop :=
  let chunk := max 1 (job.chunkFor content.length)
  ∃ given fault count, given <+: content ∧
    ReadUntil raised
      { tracker := { total := content.length }, present := job.observed }
      (CountedInput.reads (chunk - 1) fault { rest := given }) count stopped ∧
    bytes = given.take (count * chunk) ∧ (stopped = false → bytes = content)

theorem TakesIn.eq_take {raised : Nat → List (Progress α) → Bool}
    {content bytes : Bytes} {stopped : Bool}
    (takes : job.TakesIn raised content stopped bytes) :
    bytes = content.take bytes.length := by
  obtain ⟨given, fault, count, part, -, rfl, -⟩ := takes
  exact List.prefix_iff_eq_take.mp ((List.take_prefix _ _).trans part)

theorem TakesIn.whole {raised : Nat → List (Progress α) → Bool}
    {content bytes : Bytes} {stopped : Bool}
    (takes : job.TakesIn raised content stopped bytes)
    (calm : stopped = false) :
    bytes = content := by
  obtain ⟨given, fault, count, -, -, -, whole⟩ := takes
  exact whole calm

theorem storedWith_spec {content : Bytes} {path : Text}
    (stored : tree.content path = .ok content) (fault : Option Fault) :
    (tree.storedWith path fault).bytes <+: content ∧
      ((tree.storedWith path fault).fault = none →
        (tree.storedWith path fault).bytes = content) := by
  unfold storedWith
  rw [stored]
  cases fault with
  | none => exact ⟨List.prefix_refl _, fun _ => rfl⟩
  | some fault => exact ⟨List.take_prefix _ _, nofun⟩

/-- The bytes of the first reads of an input. -/
def givenBy (reads : List Read) (count : Nat) : Bytes :=
  ((reads.take count).map Read.bytes).flatten

/-- What a job wrote and reports are its lead and what a session makes of the
bytes that it read. -/
theorem Cleaned.report {raised : Nat → List (Progress α) → Bool}
    {reads : List Read} {begun : FileTree} {session : Session}
    {observer : Observer α} {count : Nat} {stats : CleanStats} {text : Text}
    (cleaned : job.Cleaned raised reads begun session observer front count stats
        text) (settled : session.Settled) :
    text = front ++ (session.conclude (givenBy reads count)).1 ∧
      stats = { (session.conclude (givenBy reads count)).2 with
        bytesWritten := text.encode.length, cancelled := stats.cancelled } := by
  have stillSettled : (session.writePrelude front).1.Settled := settled
  obtain ⟨sameText, sameStats⟩ :=
    Session.finish_pushAll (session.writePrelude front).1
    ((reads.take count).map Read.bytes) stillSettled
  rw [Session.conclude_writePrelude] at sameText sameStats
  constructor
  · rw [cleaned.text_eq, List.append_assoc, sameText]
    rfl
  · have statsEq := cleaned.stats_eq
    dsimp only at statsEq
    rw [sameStats] at statsEq
    exact statsEq

theorem settled_sessionFor (job : Job) (catalog : Catalog)
    (warnings : List Warning) :
    (job.sessionFor catalog warnings).Settled :=
  Session.settled_foldl_warn _ warnings rfl

theorem openInput_uncompressed (codec : Codec)
    (uncompressed : Compression.ofPath job.input = .none) (size : Nat)
    (stored : StoredFile) :
    job.openInput codec size stored =
      { reads := .ok
          (CountedInput.reads (job.chunkFor size - 1) stored.fault { rest :=
            stored.bytes }) } := by
  unfold openInput
  rw [uncompressed]
  rfl

/-- The options of the job: the default schema is the one given, else the
database that the output selects, else the only schema of the catalog. -/
theorem optionsFor_eq (job : Job) (catalog : Catalog) :
    job.optionsFor catalog = { job.options with
      defaultSchema :=
        (job.options.defaultSchema.or job.databaseName).or
          catalog.singleSchema? } := by
  simp only [optionsFor, Option.orElse_eq_or]

/-- The text and the report of a job on an uncompressed file with the given
content are those of a session over `bytes`. -/
structure Reported (job : Job) (raised : Nat → List (Progress α) → Bool)
    (tree : FileTree) (content : Bytes) (catalog : Catalog)
    (warnings : List Warning) (front : Text) (bytes : Bytes)
    (stats : CleanStats) (text : Text) : Prop where
  loaded : tree.answer job.loadCatalog = .ok (catalog, warnings)
  leads : job.LeadsWith tree front
  takes : job.TakesIn raised content stats.cancelled bytes
  text_eq :
    let options := { job.options with
      defaultSchema := (job.options.defaultSchema.or job.databaseName).or
        catalog.singleSchema? }
    text = front ++ (cleanBytes options catalog bytes).1
  /-- The warnings of the catalog are given to the session first. -/
  stats_eq :
    let options := { job.options with
      defaultSchema := (job.options.defaultSchema.or job.databaseName).or
        catalog.singleSchema? }
    let session := warnings.foldl Session.warn (Session.start options catalog)
    stats = { (session.push bytes).1.finish.1 with
      bytesWritten := text.encode.length, cancelled := stats.cancelled }

section Success

variable {codec : Codec} {raised : Nat → List (Progress α) → Bool}
  {stats : CleanStats} {text : Text} {content : Bytes}

theorem Success.reads_eq
    (success : Success codec job raised tree stats text after)
    (uncompressed : Compression.ofPath job.input = .none)
    (stored : tree.content job.input = .ok content) :
    success.reads =
      CountedInput.reads (max 1 (job.chunkFor content.length) - 1)
        (tree.storedWith job.input success.fault).fault
        { rest := (tree.storedWith job.input success.fault).bytes } := by
  have opened := success.opened
  rw [openInput_uncompressed codec uncompressed, success.sized content stored]
    at opened
  rw [← Except.ok.inj opened]
  congr 1
  omega

theorem Success.givenBy_eq
    (success : Success codec job raised tree stats text after)
    (uncompressed : Compression.ofPath job.input = .none)
    (stored : tree.content job.input = .ok content)
    (calm : stats.cancelled = false) :
    givenBy success.reads success.count = content := by
  obtain ⟨-, whole⟩ := storedWith_spec stored success.fault
  have read := success.cleaned.read
  have reads := success.reads_eq uncompressed stored
  obtain ⟨sound, short⟩ := CountedInput.ended_reads _ _ _ success.count
    (reads ▸ read.within) (reads ▸ read.nonempty) (reads ▸ read.ended calm)
  rw [givenBy, reads, CountedInput.flatten_take_reads,
    List.take_of_length_le short, whole sound]

theorem Success.reported
    (success : Success codec job raised tree stats text after)
    (uncompressed : Compression.ofPath job.input = .none)
    (stored : tree.content job.input = .ok content) :
    ∃ bytes, job.Reported raised tree content success.catalog success.warnings
      success.front bytes
      stats text := by
  have size : success.size = content.length := success.sized content stored
  have read := success.cleaned.read
  have reads := success.reads_eq uncompressed stored
  rw [openInput_uncompressed codec uncompressed, size] at read
  have positive : max 1 (job.chunkFor content.length) - 1 + 1 =
      max 1 (job.chunkFor content.length) := by omega
  have settled := job.settled_sessionFor success.catalog success.warnings
  obtain ⟨text_eq, stats_eq⟩ := success.cleaned.report settled
  refine ⟨givenBy success.reads success.count, success.loaded,
    success.leads,
    ⟨_, (tree.storedWith job.input success.fault).fault, success.count,
      (storedWith_spec stored success.fault).1, reads ▸ read, ?_,
      success.givenBy_eq uncompressed stored⟩, ?_, ?_⟩
  · rw [reads, givenBy, CountedInput.flatten_take_reads, positive]
  · dsimp only
    rw [← optionsFor_eq, cleanBytes_eq_conclude, ← Session.conclude_foldl_warn]
    exact text_eq
  · dsimp only
    rw [← optionsFor_eq, ← sessionFor, Session.finish_push _ _ settled]
    exact stats_eq

end Success

theorem Reported.bytesRead {raised : Nat → List (Progress α) → Bool}
    {content : Bytes} {catalog : Catalog} {warnings : List Warning}
    {bytes : Bytes} {stats : CleanStats} {text : Text}
    (reported : job.Reported raised tree content catalog warnings front bytes
        stats text) :
    stats.bytesRead = bytes.length := by
  refine (congrArg CleanStats.bytesRead reported.stats_eq).trans ?_
  dsimp only
  rw [← optionsFor_eq, ← sessionFor,
    Session.finish_push _ _ (job.settled_sessionFor catalog warnings),
    Session.bytesRead_conclude, sessionFor, Session.foldl_warn]
  exact Nat.zero_add _

/-- The report of a job is settled by the catalog, the lead and the number of
bytes read. -/
theorem Reported.unique {other : Job}
    {raised otherRaised : Nat → List (Progress α) → Bool} {content : Bytes}
    {catalog otherCatalog : Catalog} {warnings otherWarnings : List Warning}
    {otherFront : Text} {bytes otherBytes : Bytes}
    {stats otherStats : CleanStats} {text otherText : Text}
    (reported : job.Reported raised tree content catalog warnings front bytes
        stats text)
    (otherReported : other.Reported otherRaised tree content otherCatalog
        otherWarnings otherFront otherBytes otherStats otherText)
    (sameOptions : other.options = job.options)
    (sameDatabase : other.databaseName = job.databaseName)
    (sameCatalog : tree.answer (other.loadCatalog : StateM FileTree _) =
        tree.answer job.loadCatalog) (sameFront : otherFront = front)
    (sameStop : otherStats.cancelled = stats.cancelled)
    (sameSize : stats.cancelled = true →
        otherStats.bytesRead = stats.bytesRead) :
    otherStats = stats ∧ otherText = text := by
  have loaded :=
    otherReported.loaded.symm.trans (sameCatalog.trans reported.loaded)
  obtain ⟨rfl, rfl⟩ := Prod.mk.inj (Except.ok.inj loaded)
  have sameBytes : otherBytes = bytes := by
    cases stopped : stats.cancelled with
    | false =>
        rw [otherReported.takes.whole (sameStop.trans stopped),
          reported.takes.whole stopped]
    | true =>
        rw [otherReported.takes.eq_take, reported.takes.eq_take,
          ← reported.bytesRead, ← otherReported.bytesRead, sameSize stopped]
  have sameText : otherText = text := by
    rw [otherReported.text_eq, reported.text_eq, sameOptions, sameDatabase,
      sameFront, sameBytes]
  refine ⟨?_, sameText⟩
  have otherStatsEq := otherReported.stats_eq
  rw [sameOptions, sameDatabase, sameBytes, sameText, sameStop] at otherStatsEq
  exact otherStatsEq.trans reported.stats_eq.symm

/-- Where the text that a job wrote is found. -/
def Produced (job : Job) (result : JobResult α) (tree after : FileTree) :
    Prop :=
  match job.output, job.dryRun with
  | _, true => tree.SameFiles after ∧ job.printed result = []
  | none, false => tree.SameFiles after ∧ job.printed result = result.text
  | some path, false =>
      after.content path = .ok result.text.encode ∧ job.printed result = []

omit [Percentage α] in
private theorem produced_of_delivered {base : FileTree} {result : JobResult α}
    (grown : tree.Grown base)
    (delivered : Delivered base job.destination result.text.encode after) :
    job.Produced result tree after := by
  have files := files_of_delivered grown delivered
  unfold Produced printed
  unfold destination at delivered ⊢
  cases dry : job.dryRun with
  | true =>
      rw [dry] at files
      cases output : job.output with
      | none =>
          rw [output] at files
          exact ⟨files, rfl⟩
      | some path =>
          rw [output] at files
          exact ⟨files, rfl⟩
  | false =>
      rw [dry] at delivered files
      cases output : job.output with
      | none =>
          rw [output] at files
          exact ⟨files, rfl⟩
      | some path =>
          rw [output] at delivered
          obtain ⟨place, published⟩ := delivered
          exact ⟨published.content_eq, rfl⟩

/-- A job that succeeds on an uncompressed file refines a session over the bytes
that it read.  Another size of the reads, another observer and a dry run change
neither its text nor its report. -/
theorem runOn_refines_session (codec : Codec) (job : Job)
    (raised : Nat → List (Progress α) → Bool) (tree : FileTree)
    (content : Bytes) (stats : CleanStats)
    (uncompressed : Compression.ofPath job.input = .none)
    (stored : tree.content job.input = .ok content)
    (succeeds : (job.runOn codec raised tree).1.outcome = .ok stats) :
    let result := (job.runOn codec raised tree).1
    let after := (job.runOn codec raised tree).2
    ∃ catalog warnings front bytes,
      job.Reported raised tree content catalog warnings front bytes stats
        result.text ∧
      job.Produced result tree after ∧
      ∀ (chunkSize : Option Nat) (observed dryRun : Bool)
        (otherRaised : Nat → List (Progress α) → Bool)
        (otherStats : CleanStats),
        let other :=
          { job with
            chunkSize := chunkSize
            observed := observed
            dryRun := dryRun }.runOn codec otherRaised tree
        job.leadIn tree = .ok front →
        other.1.outcome = .ok otherStats →
        otherStats.cancelled = stats.cancelled →
        (stats.cancelled = true → otherStats.bytesRead = stats.bytesRead) →
        otherStats = stats ∧ other.1.text = result.text := by
  obtain ⟨success⟩ := success_of_runOn succeeds
  obtain ⟨bytes, reported⟩ := success.reported uncompressed stored
  refine ⟨success.catalog, success.warnings, success.front, bytes, reported,
    produced_of_delivered success.grown success.delivered, ?_⟩
  intro chunkSize observed dryRun otherRaised otherStats other readable
    otherSucceeds sameStop
    sameSize
  obtain ⟨otherSuccess⟩ := success_of_runOn otherSucceeds
  obtain ⟨otherBytes, otherReported⟩ :=
    otherSuccess.reported uncompressed stored
  have sameFront : otherSuccess.front = success.front :=
    otherReported.leads.unique readable
  exact reported.unique otherReported rfl rfl rfl sameFront sameStop sameSize

def shopRaised (_ : Nat) (notified : List (Progress Rat)) : Bool :=
  notified.any fun progress => 12 ≤ progress.bytes

theorem runOn_refines_stoppedShop :
    let dump := Text.encode "SET a=1;\n/*!40101 SET b=2 */;\n".toList
    let result := (shopJob.runOn Codec.refusing shopRaised shopTree).1
    let after := (shopJob.runOn Codec.refusing shopRaised shopTree).2
    ∃ stats catalog warnings front bytes, Compression.ofPath shopJob.input =
      .none ∧
      shopTree.content shopJob.input = .ok dump ∧ result.outcome = .ok stats ∧
      shopJob.Reported shopRaised shopTree dump catalog warnings front bytes
        stats result.text ∧
      stats.cancelled = true ∧ bytes = dump.take 12 ∧
      result.text = "USE `shop`;\n\n-- top\nSET a=1;\n/*!".toList ∧
      after.content "out/shop.sql".toList = .ok result.text.encode := by
  have stored : shopTree.content shopJob.input =
      .ok (Text.encode "SET a=1;\n/*!40101 SET b=2 */;\n".toList) :=
    eq_ok_of_toOption (by decide +kernel)
  have written : (shopJob.runOn Codec.refusing shopRaised shopTree).1.text =
      "USE `shop`;\n\n-- top\nSET a=1;\n/*!".toList := by decide +kernel
  have told :
      (shopJob.runOn Codec.refusing shopRaised shopTree).1.outcome.toOption.map
      (fun stats => (stats.cancelled, stats.bytesRead)) = some (true, 12) := by
        decide +kernel
  have uncompressed : Compression.ofPath shopJob.input = .none := by
    decide +kernel
  cases outcome : (shopJob.runOn Codec.refusing shopRaised shopTree).1.outcome
    with
  | error failure =>
      rw [outcome] at told
      cases told
  | ok stats =>
      rw [outcome] at told
      obtain ⟨stopped, size⟩ := Prod.mk.inj (Option.some.inj told)
      obtain ⟨catalog, warnings, front, bytes, reported, ⟨found, -⟩, -⟩ :=
        runOn_refines_session Codec.refusing shopJob shopRaised shopTree _ stats
          uncompressed stored
          outcome
      have first : bytes = _ := reported.takes.eq_take
      rw [← reported.bytesRead, size] at first
      exact ⟨stats, catalog, warnings, front, bytes, uncompressed, stored,
        outcome, reported, stopped, first, written, found⟩

end Job

end SqlDump
