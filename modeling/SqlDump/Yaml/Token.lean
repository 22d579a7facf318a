import SqlDump.Yaml.Block
import SqlDump.Yaml.Plain
import SqlDump.Yaml.Quoted
import SqlDump.Yaml.Tag

/-!
# Tokens of YAML

The tokens of a text tell its structure: deeper lines open block collections and
shallower lines close them.  A text in front of a colon turns out to be a key
only when the colon is read, so that the token of the key is put in front of it
then.
-/

namespace SqlDump

namespace Yaml

inductive Token where
  | directive (directive : Directive)
  | documentStart
  | documentEnd
  | blockSequenceStart
  | blockMappingStart
  | blockEnd
  | flowSequenceStart
  | flowSequenceEnd
  | flowMappingStart
  | flowMappingEnd
  | blockEntry
  | flowEntry
  | key
  | value
  | anchor (name : Text)
  /-- The node of an anchor once more. -/
  | reference (name : Text)
  | tag (tag : Tag)
  | scalar (text : Text) (style : Style)
deriving DecidableEq, Repr

/-- Where something stands that can turn out to be a key. -/
structure KeyStart where
  /-- The lines around it hold keys, so it must be one. -/
  required : Bool
  position : Nat
  line : Nat
  index : Nat
  column : Nat
deriving DecidableEq, Repr

structure TokenReader where
  rest : Text
  index : Nat := 0
  line : Nat := 0
  column : Nat := 0
  /-- The columns of the open block collections, the inmost one first. -/
  indents : List Nat := []
  /-- What can turn out to be a key on the present level. -/
  keyStart : Option KeyStart := none
  /-- The same for the levels around the open flow collections, the inmost one
  first. -/
  outerStarts : List (Option KeyStart) := []
  keyAllowed : Bool := true
  /-- The tokens so far, the last one first. -/
  tokens : List Token := []
deriving DecidableEq, Repr

namespace TokenReader

def inFlow (reader : TokenReader) : Bool :=
  !reader.outerStarts.isEmpty

def floor (reader : TokenReader) : Nat :=
  match reader.indents with
  | [] => 0
  | indent :: _ => indent + 1

/-- Go on to `rest`, which is the end of what is ahead. -/
def moveTo (reader : TokenReader) (rest : Text) : TokenReader :=
  let taken := reader.rest.take (reader.rest.length - rest.length)
  let breaks := taken.countP isBreak
  let last := (taken.reverse.takeWhile (!isBreak ·)).length
  { reader with
    rest := rest
    index := reader.index + taken.length
    line := reader.line + breaks
    column := if breaks = 0 then reader.column + last else last }

def emit (reader : TokenReader) (token : Token) : TokenReader :=
  { reader with tokens := token :: reader.tokens }

def insert (reader : TokenReader) (position : Nat) (token : Token) :
    TokenReader :=
  let later := reader.tokens.length - position
  { reader with
    tokens := reader.tokens.take later ++ token :: reader.tokens.drop later }

/-- A key is short and on one line. -/
def isStale (reader : TokenReader) (start : KeyStart) : Bool :=
  start.line < reader.line || start.index + 1024 < reader.index

def keepFresh? (reader : TokenReader) :
    Option KeyStart → Option (Option KeyStart)
  | none => some none
  | some start =>
      if !reader.isStale start then some (some start)
      else if start.required then none
      else some none

def forgetStale? (reader : TokenReader) : Option TokenReader := do
  let keyStart ← reader.keepFresh? reader.keyStart
  let outerStarts ← reader.outerStarts.mapM reader.keepFresh?
  some { reader with keyStart := keyStart, outerStarts := outerStarts }

def dropKey? (reader : TokenReader) : Option TokenReader :=
  if reader.keyStart.any (·.required) then none
  else some { reader with keyStart := none }

def saveKey? (reader : TokenReader) : Option TokenReader :=
  if !reader.keyAllowed then some reader
  else do
    let start : KeyStart :=
      { required := !reader.inFlow && reader.indents.head? == some reader.column
        position := reader.tokens.length
        line := reader.line
        index := reader.index
        column := reader.column }
    let reader ← reader.dropKey?
    some { reader with keyStart := some start }

/-- Close the block collections behind the columns that `stays` keeps. -/
def closeBlocks (reader : TokenReader) (stays : Nat → Bool) : TokenReader :=
  let kept := reader.indents.dropWhile (!stays ·)
  { reader with
    indents := kept
    tokens := List.replicate (reader.indents.length - kept.length) .blockEnd ++
      reader.tokens }

def closeAll (reader : TokenReader) : TokenReader :=
  reader.closeBlocks fun _ => false

def openBlock (reader : TokenReader) (column position : Nat) (token : Token) :
    TokenReader :=
  if !reader.inFlow ∧ reader.floor ≤ column then
    { reader.insert position token with indents := column :: reader.indents }
  else reader

def openHere (reader : TokenReader) (token : Token) : TokenReader :=
  reader.openBlock reader.column reader.tokens.length token

/-- What stands behind blanks, comments and line breaks, and whether a key may
begin there.  A tab is a blank only where no key may begin. -/
def skipGaps (inFlow : Bool) (inComment allowed : Bool) : Text → Text × Bool
  | [] => ([], allowed)
  | head :: tail =>
      if isBreak head then skipGaps inFlow false (allowed || !inFlow) tail
      else if inComment then skipGaps inFlow true allowed tail
      else if head = ' ' ∨ (head = '\t' ∧ (inFlow ∨ !allowed)) then
        skipGaps inFlow false allowed tail
      else if head = '#' then skipGaps inFlow true allowed tail
      else (head :: tail, allowed)

/-- Go on to the next token, and close the block collections that end in front
of it.  A byte order mark at the start of the text takes a column. -/
def toToken? (reader : TokenReader) : Option TokenReader := do
  let reader :=
    if reader.index = 0 ∧ reader.rest.head? = some '\ufeff' then
      reader.moveTo (reader.rest.drop 1)
    else reader
  let (rest, allowed) :=
    skipGaps reader.inFlow false reader.keyAllowed reader.rest
  let reader ← { reader.moveTo rest with keyAllowed := allowed }.forgetStale?
  if reader.inFlow then some reader
  else some (reader.closeBlocks (· ≤ reader.column))

/-- A token at the margin, behind which a line begins anew. -/
def margin? (reader : TokenReader) (token : Token) (rest : Text) :
    Option TokenReader := do
  let reader ← reader.closeAll.dropKey?
  some { (reader.emit token).moveTo rest with keyAllowed := false }

def openFlow? (reader : TokenReader) (token : Token) (rest : Text) :
    Option TokenReader := do
  let reader ← reader.saveKey?
  some { (reader.emit token).moveTo rest with
    keyStart := none
    outerStarts := reader.keyStart :: reader.outerStarts
    keyAllowed := true }

def closeFlow? (reader : TokenReader) (token : Token) (rest : Text) :
    Option TokenReader := do
  let reader ← reader.dropKey?
  some { (reader.emit token).moveTo rest with
    keyStart := reader.outerStarts.head?.join
    outerStarts := reader.outerStarts.tail
    keyAllowed := false }

def flowEntry? (reader : TokenReader) (rest : Text) : Option TokenReader := do
  let reader ← reader.dropKey?
  some { (reader.emit .flowEntry).moveTo rest with keyAllowed := true }

def blockEntry? (reader : TokenReader) (rest : Text) : Option TokenReader := do
  if !reader.inFlow ∧ !reader.keyAllowed then none
  let reader ← (reader.openHere .blockSequenceStart).dropKey?
  some { (reader.emit .blockEntry).moveTo rest with keyAllowed := true }

def key? (reader : TokenReader) (rest : Text) : Option TokenReader := do
  if !reader.inFlow ∧ !reader.keyAllowed then none
  let reader ← (reader.openHere .blockMappingStart).dropKey?
  some { (reader.emit .key).moveTo rest with keyAllowed := !reader.inFlow }

def value? (reader : TokenReader) (rest : Text) : Option TokenReader :=
  match reader.keyStart with
  | some start =>
      let reader := (reader.insert start.position .key).openBlock start.column
        start.position .blockMappingStart
      some { (reader.emit .value).moveTo rest with
        keyStart := none
        keyAllowed := false }
  | none => do
      if !reader.inFlow ∧ !reader.keyAllowed then none
      let reader := reader.openHere .blockMappingStart
      some { (reader.emit .value).moveTo rest with
        keyAllowed := !reader.inFlow }

def content? (reader : TokenReader) (token : Token) (rest : Text) :
    Option TokenReader := do
  let reader ← reader.saveKey?
  some { (reader.emit token).moveTo rest with keyAllowed := false }

def block? (reader : TokenReader) (folded : Bool) (rest : Text) :
    Option TokenReader := do
  let reader ← reader.dropKey?
  let (header, rest) ← BlockHeader.read? folded rest
  let (text, rest) ← header.text? reader.floor rest
  let style := if folded then Style.folded else .literal
  some { (reader.emit (.scalar text style)).moveTo rest with
    keyAllowed := true }

def plain? (reader : TokenReader) : Option TokenReader := do
  let reader ← reader.saveKey?
  let found ← PlainScalar.read? reader.inFlow reader.floor 0 [] reader.rest
  some { (reader.emit (.scalar found.text .plain)).moveTo found.rest with
    keyAllowed := found.brokeLine }

def token? (reader : TokenReader) (head : Char) (tail : Text) :
    Option TokenReader := do
  let atMargin := reader.column = 0
  if atMargin ∧ head = '%' then
    let (directive, rest) ← Directive.read? tail
    reader.margin? (.directive directive) rest
  else if atMargin ∧ atMark '-' (head :: tail) then
    reader.margin? .documentStart (tail.drop 2)
  else if atMargin ∧ atMark '.' (head :: tail) then
    reader.margin? .documentEnd (tail.drop 2)
  else if head = '[' then reader.openFlow? .flowSequenceStart tail
  else if head = '{' then reader.openFlow? .flowMappingStart tail
  else if head = ']' then reader.closeFlow? .flowSequenceEnd tail
  else if head = '}' then reader.closeFlow? .flowMappingEnd tail
  else if head = ',' then reader.flowEntry? tail
  else if head = '-' ∧ atGap tail then reader.blockEntry? tail
  else if head = '?' ∧ (reader.inFlow ∨ atGap tail) then reader.key? tail
  else if head = ':' ∧ (reader.inFlow ∨ atGap tail) then reader.value? tail
  else if head = '*' then
    let (name, rest) ← anchorName? tail
    reader.content? (.reference name) rest
  else if head = '&' then
    let (name, rest) ← anchorName? tail
    reader.content? (.anchor name) rest
  else if head = '!' then
    let (tag, rest) ← Tag.read? reader.inFlow tail
    reader.content? (.tag tag) rest
  else if head = '|' ∧ !reader.inFlow then reader.block? false tail
  else if head = '>' ∧ !reader.inFlow then reader.block? true tail
  else if head = '\'' then
    let (text, rest) ← singleQuoted? [] tail
    reader.content? (.scalar text .quoted) rest
  else if head = '"' then
    let (text, rest) ← doubleQuoted? false [] tail
    reader.content? (.scalar text .quoted) rest
  else if PlainScalar.begins reader.inFlow head tail then reader.plain?
  else none

/-- Read all tokens; `fuel` bounds their number. -/
def readAll? : Nat → TokenReader → Option (List Token)
  | 0, _ => none
  | fuel + 1, reader => do
      let reader ← reader.toToken?
      match reader.rest with
      | [] => (reader.closeAll.dropKey?).map fun reader => reader.tokens.reverse
      | head :: tail => readAll? fuel (← reader.token? head tail)

end TokenReader

def tokens? (text : Text) : Option (List Token) :=
  if text.all isPermitted then
    TokenReader.readAll? (text.length + 1) { rest := withLineFeeds text }
  else none

end Yaml

end SqlDump
