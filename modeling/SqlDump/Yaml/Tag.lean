import SqlDump.Text.Utf8
import SqlDump.Yaml.Break

/-!
# Tags, anchors and directives of YAML

A tag is written in full between angle brackets, or as a handle and a suffix.  A
directive at the start of a document gives the prefix that a handle stands for.
-/

namespace SqlDump

namespace Yaml

structure Tag where
  /-- Empty if the suffix is all of the tag. -/
  handle : Text
  suffix : Text
deriving DecidableEq, Repr

inductive Directive where
  | version (major minor : Nat)
  | expansion (handle text : Text)
deriving DecidableEq, Repr

def isNameCharacter (character : Char) : Bool :=
  character.isAlphanum || character == '_' || character == '-'

def takeName (text : Text) : Text × Text :=
  let name := text.takeWhile isNameCharacter
  (name, text.drop name.length)

/-- The name of an anchor; some marks may follow it at once. -/
def anchorName? (text : Text) : Option (Text × Text) :=
  let (name, rest) := takeName text
  if name = [] then none
  else if atGap rest ∨ rest.head?.any fun next =>
    "?:,]\x7d%@\x60".toList.contains next then
    some (name, rest)
  else none

namespace Tag

def defaultPrefixes : List (Text × Text) :=
  [(['!'], ['!']), (['!', '!'], "tag:yaml.org,2002:".toList)]

def isCharacter (inBrackets : Bool) (character : Char) : Bool :=
  isNameCharacter character || ";/?:@&=+$.!~*'()".toList.contains character ||
    (inBrackets && (character == ',' || character == '[' || character == ']'))

def hexByte? (high low : Char) : Option UInt8 := do
  let digits := "0123456789abcdef".toList
  let high ← digits.idxOf? high.toLower
  let low ← digits.idxOf? low.toLower
  return (16 * high + low).toUInt8

/-- The bytes of a tag, where a percent sign and two digits stand for one, and
the rest. -/
def bytes? (inBrackets : Bool) : Text → Option (Bytes × Text)
  | [] => some ([], [])
  | '%' :: high :: low :: rest => do
      let byte ← hexByte? high low
      let (bytes, after) ← bytes? inBrackets rest
      return (byte :: bytes, after)
  | '%' :: _ => none
  | head :: tail =>
      if isCharacter inBrackets head then do
        let (bytes, after) ← bytes? inBrackets tail
        return (Text.encode [head] ++ bytes, after)
      else some ([], head :: tail)

def text? (inBrackets : Bool) (text : Text) : Option (Text × Text) := do
  let (bytes, rest) ← bytes? inBrackets text
  let decoded ← Utf8.decode? bytes
  return (decoded, rest)

def suffix? (inBrackets : Bool) (text : Text) : Option (Text × Text) := do
  let (suffix, rest) ← text? inBrackets text
  if suffix = [] then none else some (suffix, rest)

def begin? : Text → Option (Tag × Text)
  | '<' :: rest => do
      let (suffix, after) ← suffix? true rest
      match after with
      | '>' :: last => some (⟨[], suffix⟩, last)
      | _ => none
  | text =>
      match takeName text with
      | (name, '!' :: rest) => do
          let (suffix, after) ← suffix? false rest
          some (⟨'!' :: name ++ ['!'], suffix⟩, after)
      | (name, rest) => do
          let (more, after) ← text? false rest
          let suffix := name ++ more
          some (if suffix = [] then ⟨[], ['!']⟩ else ⟨['!'], suffix⟩, after)

def read? (inFlow : Bool) (text : Text) : Option (Tag × Text) := do
  let (tag, rest) ← begin? text
  if atGap rest ∨ (inFlow ∧ rest.head? = some ',') then some (tag, rest)
  else none

def resolve? (prefixes : List (Text × Text)) (tag : Tag) : Option Text :=
  if tag.handle = [] then some tag.suffix
  else
    match prefixes.lookup tag.handle with
    | some expansion => some (expansion ++ tag.suffix)
    | none => none

end Tag

namespace Directive

/-- A number has at most nine digits. -/
def number? (text : Text) : Option (Nat × Text) :=
  let digits := text.takeWhile Char.isDigit
  if digits = [] ∨ 9 < digits.length then none
  else
    some (digits.foldl (fun number digit =>
      10 * number + (digit.toNat - '0'.toNat)) 0,
      text.drop digits.length)

def version? (text : Text) : Option (Directive × Text) := do
  let (major, rest) ← number? (text.dropWhile isPadding)
  match rest with
  | '.' :: rest =>
      let (minor, rest) ← number? rest
      some (.version major minor, rest)
  | _ => none

/-- The handle of a directive: a lone exclamation mark, or a name between
two. -/
def handle? : Text → Option (Text × Text)
  | '!' :: text =>
      match takeName text with
      | (name, '!' :: rest) => some ('!' :: name ++ ['!'], rest)
      | ([], rest) => some (['!'], rest)
      | _ => none
  | _ => none

def expansion? (text : Text) : Option (Directive × Text) := do
  let (handle, rest) ← handle? (text.dropWhile isPadding)
  if !rest.head?.any isPadding then none
  let (text, rest) ← Tag.suffix? true (rest.dropWhile isPadding)
  if atGap rest then some (.expansion handle text, rest) else none

/-- The directive behind its percent sign, with the rest from the end of its
line on. -/
def read? (text : Text) : Option (Directive × Text) := do
  let (name, rest) := takeName text
  if !atGap rest then none
  let (directive, rest) ←
    if name = "YAML".toList then version? rest
    else if name = "TAG".toList then expansion? rest
    else none
  let after ← afterComment? rest
  some (directive, after)

end Directive

end Yaml

end SqlDump
