import SqlDump.Command

/-!
# The program

Runs a command on the files of the machine.
-/

namespace SqlDump

namespace Machine

def fileErrorOf : IO.Error → FileError
  | .noFileOrDirectory .. => .notFound
  | .alreadyExists .. => .alreadyExists
  | .resourceBusy .. => .busy
  | .inappropriateType _ code _ =>
      if code = 20 then .notADirectory
      else if code = 21 then .isADirectory
      else .other "Inappropriate file type".toList
  | .invalidArgument _ code _ =>
      if code = 36 then .nameTooLong
      else .other "Invalid argument (os error 22)".toList
  | .permissionDenied .. => .other "Permission denied (os error 13)".toList
  | error => .other (toString error).toList

/-- Do something at a path that the system can be asked about. -/
def attempt (path : Text) (action : IO α) : IO (Except FileError α) := do
  match FileError.ofPath? path with
  | some failure => return .error failure
  | none =>
      match ← action.toBaseIO with
      | .ok value => return .ok value
      | .error error => return .error (fileErrorOf error)

def pathOf (path : Text) :=
  System.mkFilePath [String.ofList path]

structure FileDraft where
  path : Text
  handle : IO.FS.Handle

def draftPath (directory : Text) : IO Text := do
  let stamp ← IO.monoNanosNow
  return Path.join directory (".sql-dump-".toList ++ Text.ofNat stamp)

end Machine

instance : Host IO where
  Draft := Machine.FileDraft
  kind? path := do
    match ← Machine.attempt path (Machine.pathOf path).metadata with
    | .ok data => return some (if data.type == .dir then .directory else .file)
    | .error _ => return none
  names path := do
    match ← Machine.attempt path (Machine.pathOf path).readDir with
    | .ok entries =>
        return entries.toList.map fun entry => entry.fileName.toList
    | .error _ => return []
  size path := Machine.attempt path do
    let data ← (Machine.pathOf path).metadata
    return data.byteSize.toNat
  stored path := do
    match ← Machine.attempt path (IO.FS.readBinFile (Machine.pathOf path)) with
    | .ok bytes => return { bytes := bytes.toList }
    | .error failure => return { bytes := [], fault := some failure }
  content path := Machine.attempt path do
    let bytes ← IO.FS.readBinFile (Machine.pathOf path)
    return bytes.toList
  makeDirectory path :=
    Machine.attempt path (IO.FS.createDir (Machine.pathOf path))
  createDraft directory := do
    let path ← Machine.draftPath directory
    Machine.attempt path do
      let handle ← IO.FS.Handle.mk (Machine.pathOf path) .writeNew
      return { path := path, handle := handle }
  append draft bytes :=
    Machine.attempt draft.path (draft.handle.write ⟨bytes.toArray⟩)
  sync draft := Machine.attempt draft.path draft.handle.flush
  publish draft path := Machine.attempt path
    (IO.FS.rename (Machine.pathOf draft.path) (Machine.pathOf path))
  discard draft := do
    let _ ← Machine.attempt draft.path
      (IO.FS.removeFile (Machine.pathOf draft.path))
  clock := IO.monoMsNow

end SqlDump

def main (arguments : List String) : IO UInt32 := do
  let transcript ← SqlDump.Command.run (arguments.map String.toList)
  IO.print (String.ofList transcript.output)
  IO.eprint (String.ofList transcript.log)
  return transcript.exitCode.toUInt32
