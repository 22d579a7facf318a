import SqlDump.Decimal

/-!
# JSON

Values with the members of objects in a fixed order, and their text in indented
lines.
-/

namespace SqlDump

inductive JsonValue where
  | null
  | bool (value : Bool)
  | number (value : Nat)
  | decimal (value : Decimal)
  | text (value : Text)
  | array (items : List JsonValue)
  | object (members : List (Text × JsonValue))

namespace JsonValue

def ofOption (encode : β → JsonValue) : Option β → JsonValue
  | none => .null
  | some value => encode value

def optionalMember (name : String) (encode : β → JsonValue) :
    Option β → List (Text × JsonValue)
  | none => []
  | some value => [(name.toList, encode value)]

def hexDigit (value : Nat) : Char :=
  if value < 10 then Char.ofNat ('0'.toNat + value)
  else Char.ofNat ('a'.toNat + value - 10)

def escaped (character : Char) : Text :=
  if character = '"' then ['\\', '"']
  else if character = '\\' then ['\\', '\\']
  else if character = '\n' then ['\\', 'n']
  else if character = '\r' then ['\\', 'r']
  else if character = '\t' then ['\\', 't']
  else if character = '\x08' then ['\\', 'b']
  else if character = '\x0c' then ['\\', 'f']
  else if character.toNat < 0x20 then
    ['\\', 'u', '0', '0', hexDigit (character.toNat / 16),
      hexDigit (character.toNat % 16)]
  else [character]

def quoted (text : Text) : Text :=
  '"' :: text.flatMap escaped ++ ['"']

/-- A line break and the spaces of a level. -/
def lineBreak (level : Nat) : Text :=
  '\n' :: List.replicate (2 * level) ' '

mutual

/-- The text of a value that stands in lines of the given level. -/
def render (level : Nat) : JsonValue → Text
  | .null => "null".toList
  | .bool value => (toString value).toList
  | .number value => Text.ofNat value
  | .decimal value => value.text
  | .text value => quoted value
  | .array [] => ['[', ']']
  | .array (item :: items) =>
      '[' :: lineBreak (level + 1) ++ render (level + 1) item ++
        renderItems level items
  | .object [] => ['{', '}']
  | .object ((name, value) :: members) =>
      '{' :: lineBreak (level + 1) ++ quoted name ++ [':', ' '] ++
        render (level + 1) value ++ renderMembers level members

def renderItems (level : Nat) : List JsonValue → Text
  | [] => lineBreak level ++ [']']
  | item :: items =>
      ',' :: lineBreak (level + 1) ++ render (level + 1) item ++
        renderItems level items

def renderMembers (level : Nat) : List (Text × JsonValue) → Text
  | [] => lineBreak level ++ ['}']
  | (name, value) :: members =>
      ',' :: lineBreak (level + 1) ++ quoted name ++ [':', ' '] ++
        render (level + 1) value ++ renderMembers level members

end

def pretty (value : JsonValue) : Text :=
  render 0 value

end JsonValue

end SqlDump
