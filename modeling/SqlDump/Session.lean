import SqlDump.Line
import SqlDump.Pipeline
import SqlDump.Unwrap

/-!
# Cleaning a stream

A session takes the bytes of a dump in chunks of any size and writes cleaned
statements as soon as they are complete: lines are assembled, scanned into
segments, freed of guards, assembled into units and passed through the pipeline.
-/

namespace SqlDump

structure CleanOptions where
  threshold : Nat := defaultThreshold
  noDrop : Bool := false
  /-- Remove counters and times. -/
  sanitize : Bool := false
  defaultSchema : Option Text := none
  collapse : Collapse := .any
deriving DecidableEq, Repr

namespace CleanOptions

def stages (options : CleanOptions) : List Stage :=
  [.tableOptions, .timeZone] ++
    (if options.noDrop then [.dropStatement] else []) ++
    (if options.sanitize then [.volatile] else [])

end CleanOptions

structure CleanStats where
  bytesRead : Nat := 0
  bytesWritten : Nat := 0
  lines : Nat := 0
  statements : Nat := 0
  unwrapped : Nat := 0
  kept : Nat := 0
  reattached : Nat := 0
  counts : StageCounts := {}
  cancelled : Bool := false
  warnings : List Warning := []
  warningsTruncated : Nat := 0
deriving DecidableEq, Repr

structure Session where
  lines : LineAssembler := {}
  scanner : Scanner := {}
  unwrapper : Unwrapper := {}
  assembler : StatementAssembler := {}
  pipeline : Pipeline
  bytesRead : Nat := 0
  bytesWritten : Nat := 0
deriving DecidableEq, Repr

namespace Session

def start (options : CleanOptions) (catalog : Catalog) : Session where
  unwrapper := { threshold := options.threshold, collapse := options.collapse }
  pipeline :=
    { stages := options.stages
      state := { catalog := catalog, schema := options.defaultSchema } }

def warn (session : Session) (warning : Warning) : Session :=
  { session with
    pipeline :=
      { session.pipeline with state := session.pipeline.state.warn warning } }

/-- Pass finished units through the pipeline; the texts are what is written. -/
def write (session : Session) (units : List StatementUnit) :
    Session × List Text :=
  let (pipeline, texts) := session.pipeline.processAll units
  ({ session with
      pipeline := pipeline
      bytesWritten := session.bytesWritten + Text.size texts.flatten },
    texts)

/-- Assemble unwrapped text into units and write those that are complete. -/
def assemble (session : Session) (text : Text) : Session × List Text :=
  let (assembler, units) := session.assembler.push text
  { session with assembler := assembler }.write units

def feed (session : Session) (text : Text) : Session × List Text :=
  let (scanner, segments) := session.scanner.feed text
  let (unwrapper, freed) := session.unwrapper.acceptAll segments
  { session with scanner := scanner, unwrapper := unwrapper }.assemble freed

def feedLines (session : Session) : Option Text → Session × List Text
  | none => (session, [])
  | some text => session.feed text

def push (session : Session) (chunk : Bytes) : Session × List Text :=
  let (lines, complete) := session.lines.push chunk
  { session with
    lines := lines
    bytesRead := session.bytesRead + chunk.length }.feedLines complete

def writePrelude (session : Session) (text : Text) : Session × List Text :=
  ({ session with bytesWritten := session.bytesWritten + text.size }, [text])

def stats (session : Session) : CleanStats where
  bytesRead := session.bytesRead
  bytesWritten := session.bytesWritten
  lines := session.lines.lines
  statements := session.assembler.statements
  unwrapped := session.unwrapper.unwrapped
  kept := session.unwrapper.kept
  reattached := session.unwrapper.reattached
  counts := session.pipeline.state.counts
  warnings := session.pipeline.state.log.kept
  warningsTruncated := session.pipeline.state.log.dropped

def finalWarnings (openComment : Option OpenComment) (preview : Option Text) :
    List Warning :=
  (match openComment with
    | some ⟨.guard version, line⟩ => [.unterminatedComment (some version) line]
    | some ⟨.plain, line⟩ => [.unterminatedComment none line]
    | none => []) ++
  (match preview with
    | some preview => [.unterminatedStatement preview]
    | none => [])

/-- Write everything held back. -/
def finish (session : Session) : CleanStats × List Text :=
  let (lines, lastLine) := session.lines.finish
  let (session, fromLine) := { session with lines := lines }.feedLines lastLine
  let (scanner, segments, openComment) := session.scanner.finish
  let (unwrapper, freed) := session.unwrapper.acceptAll segments
  let (unwrapper, held) := unwrapper.finish
  let (session, fromScan) :=
    { session with scanner := scanner, unwrapper := unwrapper }.assemble
      (freed ++ held)
  let (assembler, units, preview) := session.assembler.finish
  let (session, fromEnd) := { session with assembler := assembler }.write units
  let session := (finalWarnings openComment preview).foldl warn session
  (session.stats, fromLine ++ fromScan ++ fromEnd)

end Session

def cleanBytes (options : CleanOptions) (catalog : Catalog) (input : Bytes) :
    Text × CleanStats :=
  let (session, written) := (Session.start options catalog).push input
  let (stats, last) := session.finish
  ((written ++ last).flatten, stats)

/-- Cleaning the output once more returns it. -/
def isFixedPoint (options : CleanOptions) (catalog : Catalog) (output : Text) :
    Bool :=
  (cleanBytes options catalog output.encode).1 == output

end SqlDump
