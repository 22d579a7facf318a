import SqlDump.Catalog.Tsv
import SqlDump.Output
import SqlDump.Reading
import SqlDump.Session

/-!
# Jobs

A job cleans one dump file.  It reads the file in chunks, writes an optional
preamble and the cleaned stream, and may be stopped between two chunks; what was
read until then is still written.  A job that fails leaves no output.
-/

namespace SqlDump

structure Job where
  input : Text
  /-- `none` is standard output. -/
  output : Option Text := none
  dryRun : Bool := false
  options : CleanOptions := {}
  /-- A catalog at hand; it stands above the catalog file. -/
  catalog : Option Catalog := none
  catalogFile : Option Text := none
  databaseName : Option Text := none
  preambleFile : Option Text := none
  chunkSize : Option Nat := none
  observed : Bool := false
deriving DecidableEq, Repr

def bufferSize (fileSize : Nat) : Nat :=
  if 1073741824 < fileSize then 262144 else 65536

structure Observer (α : Type) where
  tracker : PercentTracker α
  present : Bool
  /-- Notifications so far, the last one first. -/
  notified : List (Progress α) := []

namespace Observer

variable {α : Type} [Percentage α]

def observe (observer : Observer α) (bytes : Nat) : Observer α :=
  if observer.present then
    let (tracker, progress) := observer.tracker.report bytes
    { observer with
      tracker := tracker
      notified := progress.toList ++ observer.notified }
  else observer

def observeAll (observer : Observer α) (counts : List Nat) : Observer α :=
  counts.foldl observe observer

def observeEnd (observer : Observer α) : Observer α :=
  if observer.present then
    let (tracker, progress) := observer.tracker.reportEnd
    { observer with
      tracker := tracker
      notified := progress.toList ++ observer.notified }
  else observer

end Observer

structure JobState (m : Type → Type) [Host m] (α : Type) where
  session : Session
  observer : Observer α
  output : Output m
  /-- Texts written so far, the last one first. -/
  written : List Text := []

/-- What a job does once its output is open.  It stops at the first failure. -/
abbrev JobAction (m : Type → Type) [Host m] (α : Type) :=
  ExceptT FileError (StateT (JobState m α) m)

namespace JobState

variable {m : Type → Type} [Host m] {α : Type}

def text (state : JobState m α) : Text :=
  state.written.reverse.flatten

end JobState

namespace JobAction

variable {m : Type → Type} [Monad m] [Host m] {α : Type}

/-- Do something with the host. -/
def onHost (action : m (Except FileError β)) : JobAction m α β :=
  ExceptT.mk (StateT.lift action)

def write (text : Text) : JobAction m α Unit := do
  let state ← get
  let output ← onHost (state.output.write text.encode)
  set { state with output := output, written := text :: state.written }

def writeAll : List Text → JobAction m α Unit
  | [] => return
  | text :: texts => do
      write text
      writeAll texts

/-- Change the session and write what it gives. -/
def advance (step : Session → Session × List Text) : JobAction m α Unit := do
  let state ← get
  let (session, texts) := step state.session
  set { state with session := session }
  writeAll texts

/-- Read until the input ends or the job is stopped: `raised` tells, before so
many reads and with these notifications, whether the job is to stop.  The answer
tells whether it was stopped. -/
def readAll [Percentage α] (raised : Nat → List (Progress α) → Bool)
    (polls : Nat) :
    List Read → JobAction m α Bool
  | [] => return raised polls (← get).observer.notified
  | read :: reads => do
      if raised polls (← get).observer.notified then return true
      else
        modify fun state =>
          { state with observer := state.observer.observeAll read.fetched }
        match read.outcome with
        | .error failure => throw failure
        | .ok [] => return false
        | .ok (head :: tail) =>
            advance (·.push (head :: tail))
            readAll raised (polls + 1) reads

end JobAction

structure JobResult (α : Type) where
  outcome : Except FileError CleanStats
  text : Text := []
  notifications : List (Progress α) := []

namespace Job

def useStatement (database : Text) : Text :=
  "USE `".toList ++ database ++ "`;\n\n".toList

def withFinalLineBreak (text : Text) : Text :=
  if Text.endsWith text ['\n'] then text else text ++ ['\n']

def destination (job : Job) : Destination :=
  if job.dryRun then .nowhere
  else
    match job.output with
    | some path => .file path
    | none => .standardOutput

def printed (job : Job) (result : JobResult α) : Text :=
  if job.destination = .standardOutput then result.text else []

/-- The options with a default schema: the one given, else the database that the
output selects, else the only schema of the catalog. -/
def optionsFor (job : Job) (catalog : Catalog) : CleanOptions :=
  { job.options with
    defaultSchema :=
      (job.options.defaultSchema.orElse fun _ => job.databaseName).orElse
        fun _ => catalog.singleSchema? }

section

variable {m : Type → Type} [Monad m] [Host m]

/-- The catalog of a job.  A file that is missing is a warning. -/
def loadCatalog (job : Job) :
    m (Except FileError (Catalog × List Warning)) := do
  match job.catalog, job.catalogFile with
  | some catalog, _ => return .ok (catalog, [])
  | none, none => return .ok ({}, [])
  | none, some path =>
      if !(← Host.isFile path) then return .ok ({}, [.missingMetadataFile path])
      match ← Host.content path with
      | .error failure => return .error failure
      | .ok bytes =>
          match Catalog.ofTsv? bytes with
          | some catalog => return .ok (catalog, [])
          | none => return .error .invalidText

variable {α : Type} [Percentage α]

def selectDatabase (job : Job) : JobAction m α Unit :=
  match job.databaseName with
  | some database => JobAction.advance (·.writePrelude (useStatement database))
  | none => pure ()

def copyPreamble (job : Job) : JobAction m α Unit :=
  match job.preambleFile with
  | some path => do
      let text ← JobAction.onHost (Host.text path)
      JobAction.advance (·.writePrelude (withFinalLineBreak text))
  | none => pure ()

def finish (stopped : Bool) : JobAction m α CleanStats := do
  let (stats, last) := (← get).session.finish
  JobAction.writeAll last
  let written ← JobAction.onHost (← get).output.commit
  if !stopped then
    modify fun state => { state with observer := state.observer.observeEnd }
  return { stats with bytesWritten := written, cancelled := stopped }

/-- Work on the opened input and output. -/
def clean (job : Job) (raised : Nat → List (Progress α) → Bool)
    (reads : List Read) :
    JobAction m α CleanStats := do
  job.selectDatabase
  job.copyPreamble
  let stopped ← JobAction.readAll raised 0 reads
  finish stopped

/-- Work on an opened input.  The output of a job that fails is given up. -/
def workOn (job : Job) (raised : Nat → List (Progress α) → Bool)
    (session : Session) (observer : Observer α) (reads : List Read) :
    m (JobResult α) := do
  match ← Output.create job.destination with
  | .error failure =>
      return {
        outcome := .error failure
        notifications := observer.notified.reverse }
  | .ok output =>
      let opened : JobState m α :=
        { session := session, observer := observer, output := output }
      let (outcome, state) ← (job.clean raised reads).run.run opened
      match outcome with
      | .error _ => state.output.discard
      | .ok _ => pure ()
      return {
        outcome := outcome
        text := state.text
        notifications := state.observer.notified.reverse }

def chunkFor (job : Job) (size : Nat) : Nat :=
  job.chunkSize.getD (bufferSize size)

def openInput (job : Job) (codec : Codec) (size : Nat) (stored : StoredFile) :
    OpenedInput :=
  codec.openInput (Compression.ofPath job.input) (job.chunkFor size) stored

def observerOf (job : Job) (size : Nat) (input : OpenedInput) : Observer α :=
  Observer.observeAll
    { tracker := { total := size }, present := job.observed } input.fetched

def sessionFor (job : Job) (catalog : Catalog) (warnings : List Warning) :
    Session :=
  warnings.foldl Session.warn (Session.start (job.optionsFor catalog) catalog)

/-- Do the job.  An input that cannot be opened stands above a bad catalog, that
above an output that cannot begin, and that above everything that happens while
the dump is read. -/
def run (codec : Codec) (job : Job) (raised : Nat → List (Progress α) → Bool) :
    m (JobResult α) := do
  match ← Host.size job.input with
  | .error failure => return { outcome := .error failure }
  | .ok size =>
      match ← job.loadCatalog with
      | .error failure => return { outcome := .error failure }
      | .ok (catalog, warnings) =>
          let input := job.openInput codec size (← Host.stored job.input)
          let observer := job.observerOf size input
          match input.reads with
          | .error failure =>
              return {
                outcome := .error failure
                notifications := observer.notified.reverse }
          | .ok reads =>
              job.workOn raised (job.sessionFor catalog warnings) observer reads

end

end Job

end SqlDump
