import SqlDump.Text.Basic

/-!
# Table catalog

What is known about the tables of a dump: a finite map from schema and table to
the table's options.  A table without a schema is looked up in all schemas at
once.
-/

namespace SqlDump

structure TableInfo where
  engine : Option Text := none
  rowFormat : Option Text := none
  collation : Option Text := none
deriving DecidableEq, Repr

namespace TableInfo

/-- The character set that a collation belongs to, which is the first part of
its name. -/
def charset (info : TableInfo) : Option Text :=
  info.collation.map fun collation => collation.takeWhile (· != '_')

/-- Names of the options that a statement cannot be completed without and that
are unknown. -/
def missing (info : TableInfo) : List Text :=
  (if info.engine = none then ["engine".toList] else []) ++
    (if info.collation = none then ["collation".toList] else [])

end TableInfo

structure CatalogEntry where
  schema : Text
  table : Text
  info : TableInfo
deriving DecidableEq, Repr

/-- The entries have different keys. -/
structure Catalog where
  entries : List CatalogEntry := []
deriving DecidableEq, Repr

inductive Lookup where
  | found (schema : Text) (info : TableInfo)
  | missing
  /-- The table is known in this many schemas. -/
  | ambiguous (candidates : Nat)
deriving DecidableEq, Repr

namespace CatalogEntry

def hasKey (schema table : Text) (entry : CatalogEntry) : Bool :=
  entry.schema == schema && entry.table == table

end CatalogEntry

namespace Catalog

/-- The last insertion of a key wins. -/
def insert (catalog : Catalog) (schema table : Text) (info : TableInfo) :
    Catalog where
  entries :=
    catalog.entries.filter (fun entry => !entry.hasKey schema table) ++
    [⟨schema, table, info⟩]

def ofList (rows : List CatalogEntry) : Catalog :=
  rows.foldl (fun catalog row => catalog.insert row.schema row.table row.info)
    {}

def get? (catalog : Catalog) (schema table : Text) : Option TableInfo :=
  (catalog.entries.find? (·.hasKey schema table)).map (·.info)

def size (catalog : Catalog) : Nat :=
  catalog.entries.length

def isEmpty (catalog : Catalog) : Bool :=
  catalog.entries.isEmpty

def singleSchema? (catalog : Catalog) : Option Text :=
  match catalog.entries with
  | [] => none
  | first :: rest =>
      if rest.all (·.schema == first.schema) then some first.schema else none

def resolve (catalog : Catalog) (schema : Option Text) (table : Text) :
    Lookup :=
  match schema with
  | some schema =>
      match catalog.get? schema table with
      | some info => .found schema info
      | none => .missing
  | none =>
      match catalog.entries.filter (·.table == table) with
      | [] => .missing
      | [entry] => .found entry.schema entry.info
      | entries => .ambiguous entries.length

end Catalog

end SqlDump
