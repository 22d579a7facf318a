import SqlDump.Text.Blank
import SqlDump.Text.Letter
import SqlDump.Text.Word

/-!
# Recognised statements

The statements that name a schema, a view or a table, read from the start of a
text.  Words are read in any letter case and any blanks may stand between them.
-/

namespace SqlDump

namespace Ddl

/-- The rest behind a word and the blanks that must follow it. -/
def afterWordBlanks? (word text : Text) : Option Text :=
  (Text.afterWord? word text).bind Text.afterBlanks?

/-- A name in backticks, which must not be empty, and the rest behind it. -/
def quotedName? : Text → Option (Text × Text)
  | '\x60' :: text =>
      match text.takeWhile (· != '\x60'), text.dropWhile (· != '\x60') with
      | head :: name, _ :: rest => some (head :: name, rest)
      | _, _ => none
  | _ => none

/-- A run of name characters, which must not be empty, and the rest behind
it. -/
def plainName? (isNameCharacter : Char → Bool) (text : Text) :
    Option (Text × Text) :=
  match text.takeWhile isNameCharacter with
  | [] => none
  | head :: name => some (head :: name, text.dropWhile isNameCharacter)

def name? (isNameCharacter : Char → Bool) (text : Text) :
    Option (Text × Text) :=
  (quotedName? text).or (plainName? isNameCharacter text)

/-- Characters of an unquoted schema name: the ASCII ones and those that fold to
a letter. -/
def isSchemaCharacter (character : Char) : Bool :=
  character.isAlphanum || character == '_' || character == '$' ||
    character == '\u017F' || character == '\u212A'

def useTarget? (text : Text) : Option Text := do
  let rest ← afterWordBlanks? "USE".toList text
  let (schema, rest) ← name? isSchemaCharacter rest
  if rest.trimStart.head? = some ';' then some schema else none

/-- The view that a `DROP VIEW IF EXISTS` statement names in backticks. -/
def dropViewTarget? (text : Text) : Option Text := do
  let rest ← afterWordBlanks? "DROP".toList text
  let rest ← afterWordBlanks? "VIEW".toList rest
  let rest ← afterWordBlanks? "IF".toList rest
  let rest ← afterWordBlanks? "EXISTS".toList rest
  let (view, _) ← quotedName? rest
  some view

/-- The table of a `CREATE TABLE` statement and the rest behind its name. -/
structure CreateTable where
  schema : Option Text
  table : Text
  rest : Text
deriving DecidableEq, Repr

/-- The rest behind the words `CREATE TABLE`, with `TEMPORARY` between them or
not. -/
def afterCreateTable? (text : Text) : Option Text := do
  let rest ← afterWordBlanks? "CREATE".toList text
  let rest := (afterWordBlanks? "TEMPORARY".toList rest).getD rest
  Text.afterWord? "TABLE".toList rest

def afterIfNotExists? (text : Text) : Option Text := do
  let rest ← afterWordBlanks? "IF".toList text
  let rest ← afterWordBlanks? "NOT".toList rest
  afterWordBlanks? "EXISTS".toList rest

def qualified? (text : Text) : Option (Text × Text) :=
  match text.trimStart with
  | '.' :: rest => name? isWord (Text.trimStart rest)
  | _ => none

/-- A table name with or without its schema.  A dot that no name follows belongs
to the rest. -/
def tableName? (text : Text) : Option CreateTable := do
  let (first, rest) ← name? isWord text
  match qualified? rest with
  | some (table, rest) => some ⟨some first, table, rest⟩
  | none => some ⟨none, first, rest⟩

/-- The words `IF NOT EXISTS` belong to the name if no name follows them. -/
def createTable? (text : Text) : Option CreateTable := do
  let rest ← (afterCreateTable? text).bind Text.afterBlanks?
  ((afterIfNotExists? rest).bind tableName?).or (tableName? rest)

def isCreateTable (text : Text) : Bool :=
  match afterCreateTable? text with
  | some rest => endsWord rest.head?
  | none => false

end Ddl

end SqlDump
