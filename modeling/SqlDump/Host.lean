import SqlDump.Compression
import SqlDump.Text.Utf8

/-!
# Hosts

What a command needs from the machine it runs on: files, directories and a
clock.  Commands are written for any host, so that they run on real files as
well as on a tree of files in memory.
-/

namespace SqlDump

inductive ContentFault where
  | truncated
  /-- It does not begin with the mark of its format. -/
  | unmarked
  | damaged
  | unsupported
deriving DecidableEq, Repr

inductive FileError where
  | notFound
  | alreadyExists
  | notADirectory
  | isADirectory
  | busy
  | nameTooLong
  | invalidName
  /-- A text file that is not encoded text. -/
  | invalidText
  | content (format : Compression) (fault : ContentFault)
  | other (reason : Text)
deriving DecidableEq, Repr

namespace ContentFault

/-- Every format words its faults in its own way. -/
def message (format : Compression) : ContentFault → Text
  | .truncated =>
      match format with
      | .bzip2 => "decompression not finished but EOF reached".toList
      | .xz => "premature eof".toList
      | .zstd => "incomplete frame".toList
      | _ => "unexpected end of file".toList
  | .unmarked =>
      match format with
      | .bzip2 => "bzip2: bz2 header missing".toList
      | .xz => "stream/file format not recognized".toList
      | .zstd => "Unknown frame descriptor".toList
      | _ => "invalid gzip header".toList
  | .damaged =>
      match format with
      | .bzip2 => "bzip2: invalid data".toList
      | _ => "corrupt data".toList
  | .unsupported => "unsupported compression".toList

end ContentFault

namespace FileError

def message : FileError → Text
  | .notFound => "No such file or directory (os error 2)".toList
  | .alreadyExists => "File exists (os error 17)".toList
  | .notADirectory => "Not a directory (os error 20)".toList
  | .isADirectory => "Is a directory (os error 21)".toList
  | .busy => "Device or resource busy (os error 16)".toList
  | .nameTooLong => "File name too long (os error 36)".toList
  | .invalidName => "file name contained an unexpected NUL byte".toList
  | .invalidText => "stream did not contain valid UTF-8".toList
  | .content format fault => fault.message format
  | .other reason => reason

def longestPath : Nat := 4095

def longestName : Nat := 255

/-- What is wrong with a path before it is walked. -/
def ofPath? (path : Text) : Option FileError :=
  if path.contains '\x00' then some .invalidName
  else if longestPath < Text.size path then some .nameTooLong
  else none

def ofName? (name : Text) : Option FileError :=
  if longestName < Text.size name then some .nameTooLong else none

end FileError

inductive FileKind where
  | file
  | directory
deriving DecidableEq, Repr

/-- What an opened file gives: bytes, and what stops the reading ahead of the
end of the file. -/
structure StoredFile where
  bytes : Bytes
  fault : Option FileError := none
deriving DecidableEq, Repr

class Host (m : Type → Type) where
  /-- A new file that is to take the place of another one. -/
  Draft : Type
  /-- What a path leads to. -/
  kind? : Text → m (Option FileKind)
  names : Text → m (List Text)
  /-- Size of a file that is opened to be read; a directory can be opened
  too. -/
  size : Text → m (Except FileError Nat)
  /-- What can be read from a file that was opened. -/
  stored : Text → m StoredFile
  content : Text → m (Except FileError Bytes)
  makeDirectory : Text → m (Except FileError Unit)
  /-- An empty draft in a directory, under a name that nothing else has. -/
  createDraft : Text → m (Except FileError Draft)
  append : Draft → Bytes → m (Except FileError Unit)
  /-- Make sure that everything appended to a draft is kept. -/
  sync : Draft → m (Except FileError Unit)
  /-- Put a draft in the place of whatever file the path leads to, all at
  once. -/
  publish : Draft → Text → m (Except FileError Unit)
  discard : Draft → m Unit
  /-- Milliseconds of a clock. -/
  clock : m Nat

namespace Host

variable {m : Type → Type} [Monad m] [Host m]

def isFile (path : Text) : m Bool := do
  return (← kind? path) == some .file

def isDirectory (path : Text) : m Bool := do
  return (← kind? path) == some .directory

def pathExists (path : Text) : m Bool := do
  return (← kind? path).isSome

def ensureDirectory (path : Text) : m (Except FileError Unit) := do
  match ← makeDirectory path with
  | .ok () => return .ok ()
  | .error failure =>
      if failure = .alreadyExists ∧ (← isDirectory path) then return .ok ()
      else return .error failure

/-- Make a directory and those above it; `fuel` bounds their number. -/
def ensureDirectoriesUpTo : Nat → Text → m (Except FileError Unit)
  | 0, _ => return .ok ()
  | fuel + 1, path =>
      match path, Path.parent? path with
      | [], _ => return .ok ()
      | _, none => return .ok ()
      | _, some parent => do
          match ← ensureDirectory path with
          | .error .notFound =>
              match ← ensureDirectoriesUpTo fuel parent with
              | .ok () => ensureDirectory path
              | .error failure => return .error failure
          | outcome => return outcome

def ensureDirectories (path : Text) : m (Except FileError Unit) :=
  ensureDirectoriesUpTo (path.length + 1) path

def text (path : Text) : m (Except FileError Text) := do
  match ← content path with
  | .error failure => return .error failure
  | .ok bytes =>
      match Utf8.decode? bytes with
      | some text => return .ok text
      | none => return .error .invalidText

end Host

end SqlDump
