import SqlDump.Yaml.Token

/-!
# YAML documents

A document is a tree of scalars, sequences and mappings.  A node with an anchor
can be referred to further on.  The tree keeps the references, and what they
lead to stands beside it.
-/

namespace SqlDump

namespace Yaml

inductive Node where
  | scalar (scalar : Scalar)
  | sequence (items : List Node)
  | mapping (entries : List (Node × Node))
  | reference (number : Nat)
deriving Repr

structure Document where
  /-- An empty text has none. -/
  root : Option Node
  /-- The scalars that references lead to; those to collections are not
  followed. -/
  targets : List (Nat × Option Scalar)
deriving Repr

namespace Document

def scalar? (document : Document) : Node → Option Scalar
  | .scalar scalar => some scalar
  | .reference number => (document.targets.lookup number).join
  | _ => none

end Document

structure NodeReader where
  tokens : List Token
  prefixes : List (Text × Text) := Tag.defaultPrefixes
  anchors : List (Text × Nat) := []
  targets : List (Nat × Option Scalar) := []

namespace NodeReader

abbrev Reading := StateT NodeReader Option

def peek : Reading (Option Token) := do
  return (← get).tokens.head?

def skip : Reading Unit :=
  modify fun reader => { reader with tokens := reader.tokens.tail }

def expect (token : Token) : Reading Unit := do
  if (← peek) = some token then skip else failure

def nextIn (tokens : List Token) : Reading Bool := do
  return (← peek).any tokens.contains

def void : Node := .scalar {}

/-- Give an anchor its number: the number of other anchors so far. -/
def declare (anchor : Option Text) (target : Option Scalar) : Reading Unit :=
  match anchor with
  | none => return ()
  | some name =>
      modify fun reader =>
        let number := reader.anchors.length
        { reader with
          anchors := (name, number) :: reader.anchors.filter fun entry =>
            entry.1 != name
          targets := (number, target) :: reader.targets }

def refer (name : Text) : Reading Node := do
  match (← get).anchors.lookup name with
  | some number => return .reference number
  | none => failure

def anchor? : Reading (Option Text) := do
  match ← peek with
  | some (.anchor name) => skip; return some name
  | _ => return none

def tag? : Reading (Option Text) := do
  match ← peek with
  | some (.tag tag) =>
      skip
      match tag.resolve? (← get).prefixes with
      | some full => return some full
      | none => failure
  | _ => return none

/-- The anchor and the tag in front of a node, in either order. -/
def properties : Reading (Option Text × Option Text) := do
  match ← anchor? with
  | some name => return (some name, ← tag?)
  | none =>
      match ← tag? with
      | some tag => return (← anchor?, some tag)
      | none => return (none, none)

mutual

/-- Read a node; `inBlock` tells that it may be a block collection, and
`afterKey` that its items may stand without more spaces than the key.  `fuel`
bounds the number of tokens. -/
def node (fuel : Nat) (inBlock afterKey : Bool) : Reading Node :=
  match fuel with
  | 0 => failure
  | fuel + 1 => do
      match ← peek with
      | some (.reference name) => skip; refer name
      | _ =>
          let (anchor, tag) ← properties
          match ← peek with
          | some (.scalar text style) =>
              skip
              let scalar : Scalar :=
                ⟨text, style, if tag = some ['!'] then none else tag⟩
              declare anchor (some scalar)
              return .scalar scalar
          | some .flowSequenceStart =>
              skip
              declare anchor none
              return .sequence (← flowItems fuel true)
          | some .flowMappingStart =>
              skip
              declare anchor none
              return .mapping (← flowEntries fuel true)
          | next =>
              if afterKey ∧ next = some .blockEntry then
                declare anchor none
                return .sequence (← shallowItems fuel)
              else if inBlock ∧ next = some .blockSequenceStart then
                skip
                declare anchor none
                return .sequence (← blockItems fuel)
              else if inBlock ∧ next = some .blockMappingStart then
                skip
                declare anchor none
                return .mapping (← blockEntries fuel)
              else if anchor.isSome ∨ tag.isSome then
                let scalar : Scalar := { tag := tag }
                declare anchor (some scalar)
                return .scalar scalar
              else failure

/-- Read a node unless it was left out in front of one of some tokens. -/
def nodeBefore (fuel : Nat) (tokens : List Token) (inBlock afterKey : Bool) :
    Reading Node :=
  match fuel with
  | 0 => failure
  | fuel + 1 => do
      if ← nextIn tokens then return void else node fuel inBlock afterKey

def blockItems (fuel : Nat) : Reading (List Node) :=
  match fuel with
  | 0 => failure
  | fuel + 1 => do
      if ← nextIn [.blockEntry] then
        skip
        let item ← nodeBefore fuel [.blockEntry, .blockEnd] true false
        return item :: (← blockItems fuel)
      else
        expect .blockEnd
        return []

/-- Items that stand without more spaces than the key in front of them. -/
def shallowItems (fuel : Nat) : Reading (List Node) :=
  match fuel with
  | 0 => failure
  | fuel + 1 => do
      if ← nextIn [.blockEntry] then
        skip
        let item ← nodeBefore fuel [.blockEntry, .key, .value, .blockEnd] true
            false
        return item :: (← shallowItems fuel)
      else return []

def blockEntries (fuel : Nat) : Reading (List (Node × Node)) :=
  match fuel with
  | 0 => failure
  | fuel + 1 => do
      if ← nextIn [.key] then
        skip
        let key ← nodeBefore fuel [.key, .value, .blockEnd] true true
        if ← nextIn [.value] then
          skip
          let value ← nodeBefore fuel [.key, .value, .blockEnd] true true
          return (key, value) :: (← blockEntries fuel)
        else return (key, void) :: (← blockEntries fuel)
      else
        expect .blockEnd
        return []

/-- A value in brackets that `final` closes. -/
def flowValue (fuel : Nat) (final : Token) : Reading Node :=
  match fuel with
  | 0 => failure
  | fuel + 1 => do
      if ← nextIn [.value] then
        skip
        nodeBefore fuel [.flowEntry, final] false false
      else return void

/-- Items in brackets; a key among them begins a mapping with one entry. -/
def flowItems (fuel : Nat) (first : Bool) : Reading (List Node) :=
  match fuel with
  | 0 => failure
  | fuel + 1 => do
      if !first ∧ !(← nextIn [.flowSequenceEnd]) then expect .flowEntry
      if ← nextIn [.flowSequenceEnd] then
        skip
        return []
      else if ← nextIn [.key] then
        skip
        let key ← nodeBefore fuel [.value, .flowEntry, .flowSequenceEnd] false
            false
        let value ← flowValue fuel .flowSequenceEnd
        return .mapping [(key, value)] :: (← flowItems fuel false)
      else
        let item ← node fuel false false
        return item :: (← flowItems fuel false)

def flowEntries (fuel : Nat) (first : Bool) : Reading (List (Node × Node)) :=
  match fuel with
  | 0 => failure
  | fuel + 1 => do
      if !first ∧ !(← nextIn [.flowMappingEnd]) then expect .flowEntry
      if ← nextIn [.flowMappingEnd] then
        skip
        return []
      else if ← nextIn [.key] then
        skip
        let key ← nodeBefore fuel [.value, .flowEntry, .flowMappingEnd] false
            false
        let value ← flowValue fuel .flowMappingEnd
        return (key, value) :: (← flowEntries fuel false)
      else
        let key ← node fuel false false
        return (key, void) :: (← flowEntries fuel false)

end

/-- Read the directives of a document; `versioned` tells that one named a
version. -/
def directives (versioned : Bool) (handles : List Text) :
    List Token → Option (List (Text × Text))
  | .directive (.version major minor) :: tokens =>
      if versioned ∨ major ≠ 1 ∨ (minor ≠ 1 ∧ minor ≠ 2) then none
      else directives true handles tokens
  | .directive (.expansion handle text) :: tokens =>
      if handles.contains handle then none
      else (directives versioned (handle :: handles) tokens).map
        ((handle, text) :: ·)
  | _ => some []

def isDirective : Token → Bool
  | .directive _ => true
  | _ => false

def root : Reading (Option Node) := do
  let tokens := (← get).tokens
  match tokens with
  | [] => return none
  | head :: _ =>
      let fuel := 4 * tokens.length + 8
      if isDirective head ∨ head = .documentStart then
        match directives false [] tokens with
        | none => failure
        | some added =>
            modify fun reader =>
              { reader with
                tokens := tokens.dropWhile isDirective
                prefixes := added ++ reader.prefixes }
            expect .documentStart
            match ← peek with
            | none => return some void
            | some next =>
                if isDirective next ∨ next = .documentStart ∨
                next = .documentEnd then
                  return some void
                else return some (← node fuel true false)
      else return some (← node fuel true false)

/-- The document, behind which nothing but marks of its end may stand. -/
def document : Reading Document := do
  let root ← root
  let reader ← get
  if root.isSome ∧ !reader.tokens.all (· == .documentEnd) then failure
  return ⟨root, reader.targets⟩

end NodeReader

def parse? (text : Text) : Option Document := do
  let tokens ← tokens? text
  let (document, _) ← NodeReader.document.run { tokens := tokens }
  return document

end Yaml

end SqlDump
