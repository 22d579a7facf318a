import SqlDump.Host

/-!
# Outputs

Where a cleaned dump goes.  A file grows as a draft beside the one that it will
replace, and takes its place when the output is committed, so a run that stops
early leaves the old file as it was.
-/

namespace SqlDump

inductive Destination where
  | file (path : Text)
  | standardOutput
  /-- Count what is written and drop it. -/
  | nowhere
deriving DecidableEq, Repr

inductive Target (m : Type → Type) [Host m] where
  | file (draft : Host.Draft m) (path : Text)
  | standardOutput
  | nowhere

structure Output (m : Type → Type) [Host m] where
  target : Target m
  /-- Bytes for the draft that wait to be handed on together, the last ones
  first. -/
  waiting : List Bytes := []
  size : Nat := 0

namespace Output

def directoryOf (path : Text) : Text :=
  match Path.parent? path with
  | some (head :: tail) => head :: tail
  | _ => ['.']

/-- The most bytes that wait. -/
def capacity : Nat := 262144

variable {m : Type → Type} [Monad m] [Host m]

/-- Begin an output; the directory of a file is made. -/
def create (destination : Destination) : m (Except FileError (Output m)) := do
  match destination with
  | .standardOutput => return .ok { target := .standardOutput }
  | .nowhere => return .ok { target := .nowhere }
  | .file path =>
      match ← Host.ensureDirectories (directoryOf path) with
      | .error failure => return .error failure
      | .ok () =>
          match ← Host.createDraft (directoryOf path) with
          | .error failure => return .error failure
          | .ok draft => return .ok { target := .file draft path }

def held (output : Output m) : Bytes :=
  output.waiting.reverse.flatten

/-- Hand on everything that waits. -/
def flush (output : Output m) : m (Except FileError (Output m)) := do
  match output.target, output.waiting with
  | .file draft _, _ :: _ =>
      match ← Host.append draft output.held with
      | .error failure => return .error failure
      | .ok () => return .ok { output with waiting := [] }
  | _, _ => return .ok output

def keep (output : Output m) (bytes : Bytes) : Output m :=
  { output with
    waiting := bytes :: output.waiting
    size := output.size + bytes.length }

/-- Bytes that fit wait; those that never fit are handed on at once. -/
def write (output : Output m) (bytes : Bytes) :
    m (Except FileError (Output m)) := do
  match output.target with
  | .file draft _ =>
      if output.held.length + bytes.length ≤ capacity ∧
          bytes.length < capacity then
        return .ok (output.keep bytes)
      else
        match ← output.flush with
        | .error failure => return .error failure
        | .ok flushed =>
            if bytes.length < capacity then return .ok (flushed.keep bytes)
            else
              match ← Host.append draft bytes with
              | .error failure => return .error failure
              | .ok () =>
                  return .ok { flushed with
                    size := flushed.size + bytes.length }
  | _ => return .ok { output with size := output.size + bytes.length }

/-- End an output; the answer is the number of bytes written. -/
def commit (output : Output m) : m (Except FileError Nat) := do
  match ← output.flush with
  | .error failure => return .error failure
  | .ok flushed =>
      match flushed.target with
      | .file draft path =>
          match ← Host.sync draft with
          | .error failure => return .error failure
          | .ok () =>
              match ← Host.publish draft path with
              | .error failure => return .error failure
              | .ok () => return .ok flushed.size
      | _ => return .ok flushed.size

def discard (output : Output m) : m Unit :=
  match output.target with
  | .file draft _ => Host.discard draft
  | _ => return

end Output

end SqlDump
