import SqlDump.Proofs.Job.Reads

/-!
# How a job runs

A job looks at its input and its catalog, opens its output and works on it.  A
job that succeeds delivers everything that it wrote to its destination; one that
fails leaves the files as they were.
-/

namespace SqlDump

open FileTree JobAction JobState Output

namespace FileTree

variable {before after tree : FileTree}

theorem answer_text (path : Text) (tree : FileTree) :
    tree.answer (Host.text path) =
      match tree.content path with
      | .error failure => .error failure
      | .ok bytes =>
          match Utf8.decode? bytes with
          | some text => .ok text
          | none => .error .invalidText := by
  unfold answer Host.text
  rw [run_bind, content_run_calm]
  cases tree.content path with
  | error failure => rfl
  | ok bytes =>
      dsimp only
      cases Utf8.decode? bytes <;> rfl

theorem does_text (path : Text) (tree : FileTree) :
    Does (Host.text path) tree
      (fun text after => tree.Alike after ∧
          tree.answer (Host.text path) = .ok text)
      tree.Alike := by
  refine (does_content path tree).next ?_ fun _ _ alike => Does.error alike
  rintro bytes after ⟨alike, found⟩
  have calm := answer_text path tree
  rw [found] at calm
  dsimp only at calm ⊢
  cases decoded : Utf8.decode? bytes with
  | none => exact Does.error alike
  | some text =>
      rw [decoded] at calm
      exact Does.ok ⟨alike, calm⟩

end FileTree

namespace Job

variable {α : Type} {base tree : FileTree} {target : Target (StateM FileTree)}
  {session : Session} {observer : Observer α} {text : Text}
  {state : TreeState α}

private theorem does_loadCatalog (job : Job) {origin tree : FileTree}
    (alike : origin.Alike tree) :
    Does job.loadCatalog tree
      (fun found after => origin.Alike after ∧
          origin.answer job.loadCatalog = .ok found)
      origin.Alike := by
  unfold loadCatalog answer
  split
  · exact Does.ok ⟨alike, rfl⟩
  · exact Does.ok ⟨alike, rfl⟩
  · rename_i path _ _
    refine Does.peek rfl ?_
    rw [run_bind, isFile_run, isFile_run, origin.alike_calm.find, alike.find]
    dsimp only
    split
    · exact Does.ok ⟨alike, rfl⟩
    · refine (does_content path tree).next ?_ fun _ _ quiet =>
        Does.error (alike.trans quiet)
      rintro bytes after ⟨quiet, found⟩
      rw [run_bind, content_run_calm, ← alike.content, found]
      dsimp only
      cases Catalog.ofTsv? bytes with
      | none => exact Does.error (alike.trans quiet)
      | some catalog => exact Does.ok ⟨alike.trans quiet, rfl⟩

/-- The statement that selects the database of the output. -/
def selection (job : Job) : Text :=
  match job.databaseName with
  | some database => useStatement database
  | none => []

/-- What the job writes in front of the cleaned stream, with its files as they
are in a tree. -/
def leadIn (job : Job) (tree : FileTree) : Except FileError Text :=
  match job.preambleFile with
  | none => .ok job.selection
  | some path =>
      (tree.answer (Host.text path)).map fun text =>
        job.selection ++ withFinalLineBreak text

private theorem writePrelude_append (session : Session) (first second : Text) :
    ((session.writePrelude first).1.writePrelude second).1 =
      (session.writePrelude (first ++ second)).1 := by
  simp only [Session.writePrelude, Text.size_append, Nat.add_assoc]

private theorem selectDatabase_ends (job : Job)
    (ready : Ready base target session observer [] state tree) :
    Ends job.selectDatabase state tree
      (fun _ => Ready base target (session.writePrelude job.selection).1
          observer job.selection)
      (Lost base target) := by
  unfold selectDatabase selection
  cases job.databaseName with
  | none => exact Ends.pure ready
  | some database =>
      simpa [Session.writePrelude] using advance_ends ready (·.writePrelude _)

private theorem copyPreamble_ends (job : Job)
    (ready : Ready base target (session.writePrelude job.selection).1 observer
        job.selection state tree) :
    Ends job.copyPreamble state tree
      (fun _ last after => ∃ front, job.leadIn tree = .ok front ∧
        Ready base target (session.writePrelude front).1 observer front last
          after)
      (Lost base target) := by
  unfold copyPreamble leadIn
  cases job.preambleFile with
  | none => exact Ends.pure ⟨job.selection, rfl, ready⟩
  | some path =>
      have opened : Ends (JobAction.onHost (Host.text path)) state tree
          (fun text last after => tree.answer (Host.text path) = .ok text ∧
            Ready base target (session.writePrelude job.selection).1 observer
              job.selection
              last after) (Lost base target) := by
        refine Ends.onHost ((does_text path tree).imp ?_ ?_)
        · rintro text after ⟨alike, found⟩
          exact ⟨found, ready.ofAlike alike⟩
        · intro after alike
          exact (ready.ofAlike alike).lost
      refine opened.bind ?_
      rintro text last after ⟨found, stillReady⟩
      refine (advance_ends stillReady (·.writePrelude _)).imp
        fun _ _ _ readyNow => ?_
      refine ⟨job.selection ++ withFinalLineBreak text,
        congrArg (Except.map _) found, ?_⟩
      rw [← writePrelude_append]
      simpa [Session.writePrelude] using readyNow

/-- Open the output and select the database. -/
def beginOutput (job : Job) :
    StateM FileTree (Except FileError (Output (StateM FileTree))) := do
  match ← Output.create job.destination with
  | .error failure => return .error failure
  | .ok output =>
      match job.databaseName with
      | some database => output.write (useStatement database).encode
      | none => return .ok output

private theorem write_hands (added : Text) :
    Ends (JobAction.write added) state tree
      (fun _ last after => (state.output.write added.encode).run tree =
          (.ok last.output, after))
      fun _ _ => True := by
  refine Ends.look ((Ends.ran _).bind ?_)
  rintro output last after ⟨-, ran⟩
  exact Ends.put ran

private theorem writePrelude_hands (prelude : Text) :
    Ends (JobAction.advance (·.writePrelude prelude)) state tree
      (fun _ last after =>
        (state.output.write prelude.encode).run tree = (.ok last.output, after))
      fun _ _ => True := by
  have moved :
      Ends
        (set { state with session := (state.session.writePrelude prelude).1 })
      state tree (fun _ last after => last.output = state.output ∧ after = tree)
      fun _ _ => True :=
    Ends.put ⟨rfl, rfl⟩
  refine Ends.look (moved.bind ?_)
  rintro - last after ⟨sameOutput, rfl⟩
  rw [← sameOutput]
  exact (write_hands prelude).bind fun _ _ _ handed => Ends.pure handed

private theorem selectDatabase_begins (job : Job) {ready : FileTree}
    (created : (Output.create job.destination : StateM FileTree _).run ready =
      (.ok state.output, tree)) :
    Ends job.selectDatabase state tree
      (fun _ last after => job.beginOutput.run ready = (.ok last.output, after))
      fun _ _ => True := by
  unfold selectDatabase beginOutput
  rw [run_bind, created]
  cases job.databaseName with
  | none => exact Ends.pure rfl
  | some database => exact writePrelude_hands (useStatement database)

variable [Percentage α]

private theorem finish_ends
    (ready : Ready base target session observer text state tree)
    (stopped : Bool) :
    Ends (finish stopped) state tree
      (fun stats last after => last.text = text ++ session.finish.2.flatten ∧
        stats = { session.finish.1 with
          bytesWritten := last.text.encode.length, cancelled := stopped } ∧
        Delivered base target.destination last.text.encode after)
      (Lost base target) := by
  obtain ⟨rfl, rfl, rfl, rfl, writing⟩ := ready
  have ready : Ready base state.output.target state.session state.observer
      state.text state tree :=
    ⟨rfl, rfl, rfl, rfl, writing⟩
  unfold finish
  refine Ends.look ?_
  generalize state.session.finish = finished
  obtain ⟨stats, rest⟩ := finished
  dsimp only
  refine (writeAll_ends ready rest).bind fun _ last after written => ?_
  obtain ⟨-, -, sameText, sameTarget, stillWriting⟩ := written
  refine Ends.look ?_
  have committed : Ends (JobAction.onHost last.output.commit) last after
      (fun size final done => final.text = last.text ∧
        size = last.text.encode.length ∧
        Delivered base state.output.target.destination last.text.encode done)
      (Lost base state.output.target) := by
    rw [sameText, ← sameTarget]
    exact Ends.onHost
      (stillWriting.does_commit.imp (fun _ _ holds => ⟨sameText, holds⟩)
      fun _ broken => ⟨rfl, broken⟩)
  refine committed.bind ?_
  rintro size final done ⟨finalText, rfl, delivered⟩
  have told (observer : Observer α) : { final with observer := observer }.text =
      last.text :=
    finalText
  cases stopped with
  | true =>
      exact Ends.pure ⟨finalText.trans sameText, by rw [finalText],
        finalText ▸ delivered⟩
  | false =>
      exact Ends.change
        (Ends.pure ⟨(told _).trans sameText, by rw [told], by rwa [told]⟩)

/-- The job wrote `front` to the output begun, pushed the first `count` reads
through the session and wrote what the session gave. -/
structure Cleaned (job : Job) (raised : Nat → List (Progress α) → Bool)
    (reads : List Read) (begun : FileTree) (session : Session)
    (observer : Observer α) (front : Text) (count : Nat) (stats : CleanStats)
    (text : Text) : Prop where
  lead : job.leadIn begun = .ok front
  read : ReadUntil raised observer reads count stats.cancelled
  text_eq :
    let pushed :=
      (session.writePrelude front).1.pushAll ((reads.take count).map Read.bytes)
    text = front ++ pushed.2.flatten ++ pushed.1.finish.2.flatten
  stats_eq :
    let pushed :=
      (session.writePrelude front).1.pushAll ((reads.take count).map Read.bytes)
    stats = { pushed.1.finish.1 with
      bytesWritten := text.encode.length, cancelled := stats.cancelled }

private theorem clean_ends (job : Job) {ready : FileTree}
    (created : (Output.create job.destination : StateM FileTree _).run ready =
      (.ok state.output, tree))
    (opened : Ready base target session observer [] state tree)
    (raised : Nat → List (Progress α) → Bool) (reads : List Read) :
    Ends (job.clean raised reads) state tree
      (fun stats last after =>
        (∃ output begun front count,
          job.beginOutput.run ready = (.ok output, begun) ∧
          base.Extends begun ∧
          job.Cleaned raised reads begun session observer front count stats
            last.text) ∧
        Delivered base target.destination last.text.encode after)
      (Lost base target) := by
  refine ((selectDatabase_ends job opened).and
    (selectDatabase_begins job created)).bind ?_
  rintro - chosen begun ⟨selected, ran⟩
  refine (copyPreamble_ends job selected).bind ?_
  rintro - last between ⟨front, fronted, readyNow⟩
  refine (readAll_ends readyNow raised 0 reads).bind ?_
  rintro stopped last between ⟨count, watched, read, readyNow⟩
  refine (finish_ends readyNow stopped).imp ?_
  rintro stats last after ⟨sameText, sameStats, delivered⟩
  have sameStop : stopped = stats.cancelled := by rw [sameStats]
  refine ⟨⟨chosen.output, begun, front, count, ran, selected.toExtends, fronted,
    ?_, sameText, ?_⟩, delivered⟩
  · simpa only [Nat.zero_add, sameStop] using read
  · rw [← sameStop]
    exact sameStats

def Worked (job : Job) (raised : Nat → List (Progress α) → Bool)
    (session : Session) (observer : Observer α) (reads : List Read)
    (tree : FileTree) (worked : JobResult α × FileTree) : Prop :=
  match worked.1.outcome with
  | .error _ => tree.Grown worked.2
  | .ok stats => ∃ base output begun front count, tree.Grown base ∧
      job.beginOutput.run tree = (.ok output, begun) ∧ base.Extends begun ∧
      job.Cleaned raised reads begun session observer front count stats
        worked.1.text ∧
      Delivered base job.destination worked.1.text.encode worked.2

private theorem workOn_worked (job : Job)
    (raised : Nat → List (Progress α) → Bool) (session : Session)
    (observer : Observer α) (reads : List Read) (tree : FileTree) :
    Worked job raised session observer reads tree
      ((job.workOn raised session observer reads :
        StateM FileTree (JobResult α)).run tree) := by
  unfold workOn
  rw [run_bind]
  rcases (does_create job.destination tree).cases with
    ⟨failure, opened, created, grown⟩ |
    ⟨output, opened, created, base, grown, writing, toDestination⟩
  · rw [created]
    exact grown
  · rw [created]
    let state : TreeState α :=
      { session := session, observer := observer, output := output }
    have ready : Ready base output.target session observer [] state opened :=
      ⟨rfl, rfl, rfl, rfl, writing⟩
    dsimp only
    rw [run_bind]
    have ends : Ends (job.clean raised reads) state opened _ _ :=
      clean_ends job created ready raised reads
    rcases ends.cases with
      ⟨failure, last, after, ran, lost⟩ |
      ⟨stats, last, after, ran,
        ⟨begunOutput, begun, front, count, begins, more, cleaned⟩,
        delivered⟩
    · rw [ran]
      have broken : Broken base last.output.target after :=
        lost.target_eq ▸ lost.broken
      exact grown.trans (.ofAlike (discard_broken broken))
    · rw [ran]
      exact ⟨base, begunOutput, begun, front, count, grown, begins,
        more, cleaned, toDestination ▸ delivered⟩

/-- `front` is the lead of the job, with its files as they are once the output
is open and selects the database. -/
def LeadsWith (job : Job) (tree : FileTree) (front : Text) : Prop :=
  ∃ ready output begun, tree.Alike ready ∧
    job.beginOutput.run ready = (.ok output, begun) ∧
    tree.Extends begun ∧ job.leadIn begun = .ok front

/-- How a job succeeds in a tree. -/
structure Success (codec : Codec) (job : Job)
    (raised : Nat → List (Progress α) → Bool) (tree : FileTree)
    (stats : CleanStats) (text : Text) (after : FileTree) where
  size : Nat
  sized : ∀ bytes, tree.content job.input = .ok bytes → size = bytes.length
  catalog : Catalog
  warnings : List Warning
  loaded : tree.answer job.loadCatalog = .ok (catalog, warnings)
  fault : Option Fault
  reads : List Read
  opened : (job.openInput codec size (tree.storedWith job.input fault)).reads =
    .ok reads
  base : FileTree
  grown : tree.Grown base
  front : Text
  count : Nat
  leads : job.LeadsWith tree front
  begun : FileTree
  cleaned : job.Cleaned raised reads begun (job.sessionFor catalog warnings)
    (job.observerOf size
      (job.openInput codec size (tree.storedWith job.input fault))) front count
    stats text
  delivered : Delivered base job.destination text.encode after

/-- What comes of a job in a tree. -/
def Ran (codec : Codec) (job : Job) (raised : Nat → List (Progress α) → Bool)
    (tree : FileTree) (ran : JobResult α × FileTree) : Prop :=
  match ran.1.outcome with
  | .error _ => tree.Grown ran.2
  | .ok stats => Nonempty (Success codec job raised tree stats ran.1.text ran.2)

def runOn (codec : Codec) (job : Job) (raised : Nat → List (Progress α) → Bool)
    (tree : FileTree) : JobResult α × FileTree :=
  (job.run codec raised : StateM FileTree (JobResult α)).run tree

theorem run_spec (codec : Codec) (job : Job)
    (raised : Nat → List (Progress α) → Bool) (tree : FileTree) :
    Ran codec job raised tree (job.runOn codec raised tree) := by
  unfold runOn run
  rw [run_bind]
  rcases (does_size job.input tree).cases with
    ⟨failure, first, looked, alikeFirst⟩ |
      ⟨size, first, looked, alikeFirst, sized⟩
  · rw [looked]
    exact Grown.ofAlike alikeFirst
  · rw [looked]
    dsimp only
    rw [run_bind]
    rcases (does_loadCatalog job alikeFirst).cases with
      ⟨failure, second, found, alikeSecond⟩ |
      ⟨⟨catalog, warnings⟩, second, found, alikeSecond, loaded⟩
    · rw [found]
      exact Grown.ofAlike alikeSecond
    · rw [found]
      dsimp only
      rw [run_bind]
      obtain ⟨fault, stored⟩ := stored_run job.input second
      have alike := alikeSecond.trans second.alike_nextFault
      have sameStored : second.storedWith job.input fault =
          tree.storedWith job.input fault := by
        simp only [storedWith, alikeSecond.content]
      rw [stored, sameStored]
      dsimp only
      cases opened :
        (job.openInput codec size (tree.storedWith job.input fault)).reads with
      | error failure => exact Grown.ofAlike alike
      | ok reads =>
          have worked :=
            workOn_worked job raised (job.sessionFor catalog warnings)
            (job.observerOf size
              (job.openInput codec size (tree.storedWith job.input fault)))
                reads
            second.nextFault.2
          dsimp only
          unfold Worked at worked
          unfold Ran
          split at worked
          · exact (Grown.ofAlike alike).trans worked
          · obtain ⟨base, output, begun, front, count, grown, begins, more,
              cleaned, delivered⟩ :=
              worked
            have leads : job.LeadsWith tree front :=
              ⟨_, output, begun, alike, begins,
                (Grown.ofAlike alike).toExtends.trans
                  (grown.toExtends.trans more), cleaned.lead⟩
            exact ⟨{
              size := size
              sized := sized
              catalog := catalog
              warnings := warnings
              loaded := loaded
              fault := fault
              reads := reads
              opened := opened
              base := base
              grown := (Grown.ofAlike alike).trans grown
              front := front
              count := count
              leads := leads
              begun := begun
              cleaned := cleaned
              delivered := delivered }⟩

section

variable {codec : Codec} {job : Job} {raised : Nat → List (Progress α) → Bool}

theorem success_of_runOn {stats : CleanStats}
    (succeeds : (job.runOn codec raised tree).1.outcome = .ok stats) :
    Nonempty
      (Success codec job raised tree stats (job.runOn codec raised tree).1.text
      (job.runOn codec raised tree).2) := by
  have ran := run_spec codec job raised tree
  unfold Ran at ran
  rwa [succeeds] at ran

theorem grown_of_runOn {failure : FileError}
    (fails : (job.runOn codec raised tree).1.outcome = .error failure) :
    tree.Grown (job.runOn codec raised tree).2 := by
  have ran := run_spec codec job raised tree
  unfold Ran at ran
  rwa [fails] at ran

end

end Job

end SqlDump
