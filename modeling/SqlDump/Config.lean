import SqlDump.Host
import SqlDump.Session
import SqlDump.Yaml

/-!
# Configuration files

A configuration file is a YAML mapping.  Every key may be left out, unknown keys
count for nothing, and a known key stands at most once.  Paths in the file are
relative to its directory.
-/

namespace SqlDump

structure Config where
  threshold : Option Nat := none
  noDrop : Bool := false
  sanitize : Bool := false
  defaultSchema : Option Text := none
  databaseName : Option Text := none
  catalogFile : Option Text := none
  preambleFile : Option Text := none
  collapse : Option Collapse := none
deriving DecidableEq, Repr

inductive ConfigKey where
  | threshold
  | noDrop
  | sanitize
  | defaultSchema
  | databaseName
  | catalogFile
  | preambleFile
  | collapse
deriving DecidableEq, Repr

namespace ConfigKey

def name : ConfigKey → Text
  | .threshold => "version_threshold".toList
  | .noDrop => "no_drop".toList
  | .sanitize => "ddl_sanitize".toList
  | .defaultSchema => "default_schema".toList
  | .databaseName => "db_name".toList
  | .catalogFile => "metadata".toList
  | .preambleFile => "prepend_file".toList
  | .collapse => "blank_line_collapse".toList

def all : List ConfigKey :=
  [.threshold, .noDrop, .sanitize, .defaultSchema, .databaseName, .catalogFile,
    .preambleFile, .collapse]

def ofName? (name : Text) : Option ConfigKey :=
  all.find? fun key => key.name == name

end ConfigKey

inductive ConfigError where
  | file (failure : FileError)
  /-- The text is no YAML document, or not one that fits. -/
  | malformed
deriving DecidableEq, Repr

namespace ConfigError

def message : ConfigError → Text
  | .file failure => failure.message
  | .malformed => "the document does not fit".toList

end ConfigError

namespace Config

def options (config : Config) : CleanOptions where
  threshold := config.threshold.getD defaultThreshold
  noDrop := config.noDrop
  sanitize := config.sanitize
  defaultSchema := config.defaultSchema
  collapse := config.collapse.getD .any

def version? (scalar : Yaml.Scalar) : Option Nat :=
  match scalar.number? with
  | some number => if number ≤ maxVersion then some number else none
  | none => none

/-- The mode whose name is written in small letters, or tagged on nothing. -/
def collapse? (scalar : Yaml.Scalar) : Option Collapse :=
  let named (name : Text) := [Collapse.off, .lf, .any].find? fun mode =>
    mode.name == name
  match scalar.localTag? with
  | none => named scalar.text
  | some name =>
      let isNothing :=
        scalar.style == .plain &&
        (scalar.text == [] || Yaml.Scalar.isNullWord scalar.text)
      if isNothing then named name else none

def optional (read : Yaml.Scalar → Option β) (scalar : Yaml.Scalar) :
    Option (Option β) :=
  match scalar.isAbsent? with
  | none => none
  | some true => some none
  | some false => (read scalar).map some

def text? (scalar : Yaml.Scalar) : Option (Option Text) :=
  optional (fun scalar => some scalar.text) scalar

def set? (config : Config) (key : ConfigKey) (value : Yaml.Scalar) :
    Option Config :=
  match key with
  | .threshold =>
      (optional version? value).map fun value =>
        { config with threshold := value }
  | .noDrop => value.bool?.map fun value => { config with noDrop := value }
  | .sanitize => value.bool?.map fun value => { config with sanitize := value }
  | .defaultSchema =>
      (text? value).map fun value => { config with defaultSchema := value }
  | .databaseName =>
      (text? value).map fun value => { config with databaseName := value }
  | .catalogFile =>
      (text? value).map fun value => { config with catalogFile := value }
  | .preambleFile =>
      (text? value).map fun value => { config with preambleFile := value }
  | .collapse =>
      (optional collapse? value).map fun value =>
        { config with collapse := value }

/-- Read the entries of a document; `seen` are the keys before them.  An entry
with another key counts for nothing. -/
def setAll? (document : Yaml.Document) (config : Config)
    (seen : List ConfigKey) :
    List (Yaml.Node × Yaml.Node) → Option Config
  | [] => some config
  | (name, node) :: entries => do
      let name ← document.scalar? name
      match ConfigKey.ofName? name.text with
      | none => setAll? document config seen entries
      | some key =>
          if seen.contains key then none
          else
            let value ← document.scalar? node
            let changed ← config.set? key value
            setAll? document changed (key :: seen) entries

/-- The configuration in a document; a document without a value holds the
defaults. -/
def ofDocument? (document : Yaml.Document) : Option Config :=
  match document.root with
  | none => some {}
  | some (.mapping entries) => setAll? document {} [] entries
  | some (.scalar scalar) => if scalar.isVoid then some {} else none
  | some _ => none

/-- Take the paths relative to the directory of the file. -/
def resolve (config : Config) (path : Text) : Config :=
  match Path.parent? path with
  | none => config
  | some directory =>
      { config with
        catalogFile := config.catalogFile.map (Path.join directory)
        preambleFile := config.preambleFile.map (Path.join directory) }

variable {m : Type → Type} [Monad m] [Host m]

def load (path : Text) : m (Except ConfigError Config) := do
  match ← Host.text path with
  | .error failure => return .error (.file failure)
  | .ok text =>
      match (Yaml.parse? text).bind ofDocument? with
      | some config => return .ok (config.resolve path)
      | none => return .error .malformed

end Config

end SqlDump
