import SqlDump.Ddl
import SqlDump.Guard
import SqlDump.Lexer.TopLevel
import SqlDump.Pipeline.State

/-!
# Completing table options

A `CREATE TABLE` statement that lacks its engine, row format, character set or
collation gets them from the catalog.  Only the options between the parenthesis
that closes the column list and the end of its line count, and what stands
behind that line stays there.
-/

namespace SqlDump

namespace TableOptions

/-- The pattern holds at some place of the text; it sees the character before
and the rest. -/
def occurs (pattern : Option Char → Text → Bool) (before : Option Char) :
    Text → Bool
  | [] => false
  | head :: tail =>
      pattern before (head :: tail) || occurs pattern (some head) tail

def isAssignment (word : Text) (before : Option Char) (text : Text) : Bool :=
  endsWord before &&
    match Text.afterWord? word text with
    | some rest => rest.trimStart.head? == some '='
    | none => false

def isWholeWord (word : Text) (before : Option Char) (text : Text) : Bool :=
  endsWord before &&
    match Text.afterWord? word text with
    | some rest => endsWord rest.head?
    | none => false

def isCharacterSet (before : Option Char) (text : Text) : Bool :=
  endsWord before &&
    match (Ddl.afterWordBlanks? "CHARACTER".toList text).bind
      (Text.afterWord? "SET".toList) with
    | some rest => endsWord rest.head?
    | none => false

def setsEngine (options : Text) : Bool :=
  occurs (isAssignment "ENGINE".toList) none options

def setsRowFormat (options : Text) : Bool :=
  occurs (isAssignment "ROW_FORMAT".toList) none options

def setsCharset (options : Text) : Bool :=
  occurs (fun before text =>
    isWholeWord "CHARSET".toList before text || isCharacterSet before text)
      none options

def setsCollation (options : Text) : Bool :=
  occurs (isWholeWord "COLLATE".toList) none options

def addition (label : Text) (isSet : Bool) (value : Option Text) : Text :=
  match isSet, value with
  | false, some value => label ++ value
  | _, _ => []

def additions (options : Text) (info : TableInfo) : Text :=
  addition " ENGINE=".toList (setsEngine options) info.engine ++
    addition " ROW_FORMAT=".toList (setsRowFormat options) info.rowFormat ++
    addition " DEFAULT CHARSET=".toList (setsCharset options) info.charset ++
    addition " COLLATE=".toList (setsCollation options) info.collation

/-- The part of a statement behind the parenthesis that closes its column
list. -/
def behindColumns? (rest : Text) : Option Text :=
  match rest.trimStart with
  | '(' :: list =>
      (matchingParenthesis? ('(' :: list)).map fun closing =>
        ('(' :: list).drop (closing + 1)
  | _ => none

/-- The options of a table, given what stands behind its column list: its line
up to the terminator. -/
def optionsOf (behind : Text) : Text :=
  let line := behind.takeWhile (· != '\n')
  match findTopLevel? ';' line with
  | some terminator => line.take terminator
  | none => line

/-- The statement with the options that it lacks; `none` if it lacks none or has
no column list.  `rest` is what stands behind the table name. -/
def complete? (body rest : Text) (info : TableInfo) : Option Text :=
  match behindColumns? rest with
  | none => none
  | some behind =>
      let options := optionsOf behind
      match additions options info with
      | [] => none
      | added =>
          let place := body.length - behind.length + options.trimEnd.length
          some (body.take place ++ added ++ body.drop place)

def augment (state : PipelineState) (lead body : Text)
    (create : Ddl.CreateTable) : PipelineState × Text :=
  let text := lead ++ body
  let schema := create.schema.or state.schema
  match state.catalog.resolve schema create.table with
  | .missing => (state.warn (.missingTable schema create.table), text)
  | .ambiguous candidates =>
      (state.warn (.ambiguousTable create.table candidates), text)
  | .found _ info =>
      match info.missing with
      | [] =>
          match complete? body create.rest info with
          | none => (state, text)
          | some completed =>
              ({ state with
                  counts := { state.counts with
                    tablesAugmented := state.counts.tablesAugmented + 1 } },
                lead ++ completed)
      | missing =>
          (state.warn (.incompleteTable (schema.getD []) create.table missing),
            text)

def apply (state : PipelineState) (text : Text) : PipelineState × Text :=
  let (lead, body) := splitStatement text
  match Ddl.useTarget? body with
  | some schema => ({ state with schema := some schema }, text)
  | none =>
      match Ddl.dropViewTarget? body with
      | some view => (state.markPlaceholder view, text)
      | none =>
          match Ddl.createTable? body with
          | none => (state, text)
          | some create =>
              if state.placeholders.contains create.table then
                (state.dropPlaceholder create.table, text)
              else if state.catalog.isEmpty then (state, text)
              else augment state lead body create

end TableOptions

end SqlDump
