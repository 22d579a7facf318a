import SqlDump.Catalog.Tsv
import SqlDump.Proofs.Line.Strict
import SqlDump.Proofs.Text.Trim

/-!
# Loading undoes an export

An export has a line for each table, with its values in columns and tabs between
them.  How an unknown value is spelled, what stands behind the last value, which
lines without a table stand between the rows and how each line ends is left to
the writer, and loading sees none of it: it gives the catalog made by inserting
the tables in their order.

The line is the unit of the proof.  A line is read by itself, with the carriage
returns at its end taken away, and every kind of line has one lemma that says
what is read.
-/

namespace SqlDump

namespace Catalog

namespace Export

/-- What can stand in a column. -/
structure Column where
  text : Text
  noTab : '\t' ∉ text
  noLineFeed : '\n' ∉ text

/-- A value that is read as it is written. -/
structure Value extends Column where
  nonempty : text ≠ []
  trimmed : text.trim = text

/-- A value that may be unknown, as it is written. -/
inductive Cell where
  | known (value : Value)
      (named : Text.sameAsciiWord value.text unknownName = false)
  | empty
  /-- `NULL` in some letter case. -/
  | null (word : Text) (spelled : Text.sameAsciiWord word unknownName = true)

/-- A table and what is written behind its values. -/
structure Row where
  schema : Value
  table : Value
  engine : Cell
  rowFormat : Cell
  collation : Cell
  further : List Column
  noHeader : Text.sameAsciiWord schema.text headerName = false

inductive Line where
  | table (row : Row)
  | header (name : Column)
      (spelled : Text.sameAsciiWord name.text headerName = true)
      (others : List Column)
  | blank (text : Text) (blank : text.isAllBlank = true)
      (noLineFeed : '\n' ∉ text)
  | short (columns : List Column) (few : columns.length < 5)

/-- A line ends with a line feed, in front of which a carriage return may
stand. -/
inductive Ending where
  | lineFeed
  | returnAndLineFeed

/-- Ended lines, and possibly one that the end of the document ends. -/
structure Document where
  ended : List (Line × Ending)
  unended : Option Line

theorem visible_of_null {word : Text}
    (spelled : Text.sameAsciiWord word unknownName = true) :
    ∀ character ∈ word, isBlank character = false :=
  Text.visible_of_sameAsciiWord spelled (by decide)

theorem not_mem_of_null {word : Text} {blank : Char}
    (isBlank : isBlank blank = true)
    (spelled : Text.sameAsciiWord word unknownName = true) : blank ∉ word := by
  intro member
  rw [visible_of_null spelled blank member] at isBlank
  exact Bool.false_ne_true isBlank

def Cell.column : Cell → Column
  | .known value _ => value.toColumn
  | .empty => ⟨[], List.not_mem_nil, List.not_mem_nil⟩
  | .null word spelled =>
      ⟨word, not_mem_of_null (by decide) spelled,
        not_mem_of_null (by decide) spelled⟩

def Cell.value? : Cell → Option Text
  | .known value _ => some value.text
  | .empty | .null .. => none

def Row.columns (row : Row) : List Column :=
  row.schema.toColumn :: row.table.toColumn :: row.engine.column ::
  row.rowFormat.column ::
    row.collation.column :: row.further

/-- What a catalog is to know from the row. -/
def Row.entry (row : Row) : CatalogEntry where
  schema := row.schema.text
  table := row.table.text
  info :=
    { engine := row.engine.value?
      rowFormat := row.rowFormat.value?.map Text.toUpper
      collation := row.collation.value? }

def tabbed (columns : List Column) : Text :=
  ['\t'].intercalate (columns.map Column.text)

def Line.text : Line → Text
  | .table row => tabbed row.columns
  | .header name _ others => tabbed (name :: others)
  | .blank text _ _ => text
  | .short columns _ => tabbed columns

def Line.row? : Line → Option Row
  | .table row => some row
  | .header .. | .blank .. | .short .. => none

def Ending.before : Ending → Text
  | .lineFeed => []
  | .returnAndLineFeed => ['\r']

def Document.text (document : Document) : Text :=
  (document.ended.flatMap fun (line,
    ending) => line.text ++ ending.before ++ ['\n']) ++
    (document.unended.map Line.text).getD []

example :
    (⟨[(.header ⟨"Table_Schema".toList, by decide, by decide⟩ (by decide) [],
      .lineFeed),
        (.blank " \t".toList (by decide) (by decide), .lineFeed),
        (.table
          { schema :=
            ⟨⟨"shop".toList, by decide, by decide⟩, by decide, by decide⟩
            table :=
              ⟨⟨"orders".toList, by decide, by decide⟩, by decide, by decide⟩
            engine := .null "Null".toList (by decide)
            rowFormat :=
              .known ⟨⟨"Compact".toList, by decide, by decide⟩, by decide,
              by decide⟩
              (by decide)
            collation := .empty
            further := []
            noHeader := by decide },
          .returnAndLineFeed)],
      some (.short [⟨"shop".toList, by decide, by decide⟩] (by decide))⟩ :
        Document).text =
    "Table_Schema\n \t\nshop\torders\tNull\tCompact\t\r\nshop".toList := by
      decide

def Document.rows (document : Document) : List Row :=
  (document.ended.map Prod.fst ++ document.unended.toList).filterMap Line.row?

/-- The line without the carriage returns at its end. -/
def stripped (line : Text) : Text :=
  line.dropEndWhile (· == '\r')

end Export

example :
    ofTsv?
      (Text.encode
        "Table_Schema\n \t\nshop\torders\tNull\tCompact\t\r\nshop".toList) =
      some (ofList
        [⟨"shop".toList, "orders".toList,
        ⟨none, "COMPACT".toList, none⟩⟩]) := by
  decide +kernel

end Catalog

end SqlDump
