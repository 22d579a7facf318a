import SqlDump.Compression
import SqlDump.Glob

/-!
# Inputs of a command

The input of a command is a path or a pattern.  A path is one input; the files
that a pattern names are a batch, even if there is only one of them.
-/

namespace SqlDump

inductive Inputs where
  | single (path : Text)
  /-- The files of a pattern; never empty. -/
  | batch (paths : List Text)
deriving DecidableEq, Repr

inductive InputError where
  | missing (path : Text)
  | badPattern (pattern : Text) (error : GlobError)
  | noMatch (pattern : Text)
deriving DecidableEq, Repr

namespace InputError

def message : InputError → Text
  | .missing path => "input file does not exist: ".toList ++ path
  | .badPattern pattern error =>
      "invalid glob pattern '".toList ++ pattern ++ "': ".toList ++
      error.message
  | .noMatch pattern => "no files match pattern: ".toList ++ pattern

end InputError

namespace Inputs

def paths : Inputs → List Text
  | .single path => [path]
  | .batch paths => paths

section

variable {m : Type → Type} [Monad m] [Host m]

def resolve (argument : Text) : m (Except InputError Inputs) := do
  if Glob.isPattern argument then
    match ← Glob.files argument with
    | .error error => return .error (.badPattern argument error)
    | .ok [] => return .error (.noMatch argument)
    | .ok paths => return .ok (.batch paths)
  else if ← Host.pathExists argument then return .ok (.single argument)
  else return .error (.missing argument)

end

/-- Where the cleaned copy of a file goes; `index` is its position in the
batch. -/
def outputPath (directory : Text) (index : Nat) (input : Text) : Text :=
  match Path.fileName? input with
  | some name =>
      Path.join directory ((Compression.ofPath input).stripExtension name)
  | none =>
      Path.join directory ("output_".toList ++ Text.ofNat index ++
        ".sql".toList)

end Inputs

end SqlDump
