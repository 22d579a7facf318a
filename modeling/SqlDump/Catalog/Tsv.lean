import SqlDump.Catalog
import SqlDump.Text.Blank
import SqlDump.Text.Letter
import SqlDump.Text.Upper
import SqlDump.Text.Utf8

/-!
# Catalogs as tab-separated values

A row names schema, table, engine, row format and collation; further columns are
ignored.  An empty cell and `NULL` stand for an unknown value.  A header row,
blank lines and rows of fewer columns are passed over.
-/

namespace SqlDump

namespace Catalog

def headerName : Text := "TABLE_SCHEMA".toList

def unknownName : Text := "NULL".toList

def cell? (text : Text) : Option Text :=
  let value := text.trim
  if value = [] ∨ Text.sameAsciiWord value unknownName then none else some value

def row? (line : Text) : Option CatalogEntry :=
  let line := line.dropEndWhile (· == '\r')
  if line.isAllBlank then none
  else
    match line.splitOn '\t' with
    | schema :: table :: engine :: rowFormat :: collation :: _ =>
        if Text.sameAsciiWord schema headerName then none
        else
          some ⟨Text.trim schema, Text.trim table,
            { engine := cell? engine
              rowFormat := (cell? rowFormat).map Text.toUpper
              collation := cell? collation }⟩
    | _ => none

def ofLines (lines : List Text) : Catalog :=
  ofList (lines.filterMap row?)

/-- The catalog written in `bytes`, which must be encoded text. -/
def ofTsv? (bytes : Bytes) : Option Catalog :=
  (Utf8.decode? bytes).map fun text => ofLines (text.splitOn '\n')

end Catalog

end SqlDump
