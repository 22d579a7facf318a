import SqlDump.Yaml.Break

/-!
# Block scalars of YAML

The text of a block scalar stands on the lines below its header, behind the same
number of spaces.  In a literal one every line break counts.  In a folded one a
line feed between two lines that do not begin with a blank is a space.
-/

namespace SqlDump

namespace Yaml

/-- What becomes of the line breaks at the end of the text. -/
inductive Chomp where
  | strip
  | clip
  | keep
deriving DecidableEq, Repr

structure BlockHeader where
  folded : Bool
  chomp : Chomp := .clip
  /-- The spaces in front of the text beyond those of the lines around it, where
  they are told. -/
  spaces : Option Nat := none
deriving DecidableEq, Repr

structure BlockLead where
  breaks : Text
  /-- The spaces that were left out. -/
  column : Nat
  /-- The most spaces of this line and the empty ones. -/
  widest : Nat
  rest : Text
deriving DecidableEq, Repr

namespace BlockHeader

def takeChomp : Text → Option Chomp × Text
  | '+' :: rest => (some .keep, rest)
  | '-' :: rest => (some .strip, rest)
  | rest => (none, rest)

def takeSpaces? : Text → Option (Option Nat × Text)
  | [] => some (none, [])
  | head :: tail =>
      if head = '0' then none
      else if head.isDigit then some (some (head.toNat - '0'.toNat), tail)
      else some (none, head :: tail)

/-- The header behind its style, with the rest from the end of its line on.  The
two marks stand in either order. -/
def read? (folded : Bool) (text : Text) : Option (BlockHeader × Text) := do
  let (before, text) := takeChomp text
  let (spaces, text) ← takeSpaces? text
  let (behind, text) := if before.isNone ∧ spaces.isSome then takeChomp text
    else (none, text)
  let rest ← afterComment? text
  some (⟨folded, (before.or behind).getD .clip, spaces⟩, rest)

/-- Leave out empty lines, and the spaces of a line up to `indent` of them; all
of them if `indent` is zero.  A tab cannot stand for a space. -/
def lead? (indent column widest : Nat) (breaks : Text) : Text → Option BlockLead
  | [] => some ⟨breaks, column, max widest column, []⟩
  | head :: tail =>
      if head = ' ' ∧ (indent = 0 ∨ column < indent) then
        lead? indent (column + 1) widest breaks tail
      else if head = '\t' ∧ (indent = 0 ∨ column < indent) then none
      else if isBreak head then
        lead? indent 0 (max widest column) (breaks ++ [head]) tail
      else some ⟨breaks, column, max widest column, head :: tail⟩

def beginsBlank (line : Text) : Bool :=
  line.head?.any isPadding

/-- The break between two lines with text. -/
def jointOf (folded : Bool) (pending : Text) (blank : Bool) (lead : BlockLead) :
    Text :=
  if folded ∧ pending = ['\n'] ∧ !blank ∧ !beginsBlank lead.rest then
    if lead.breaks = [] then [' '] else []
  else pending

/-- The lines from `lead` on.  In front of them stands the break `pending` of a
line that begins with a blank if `blank` is set.  The result is their text, the
break at its end and the line behind it; `fuel` bounds the number of lines. -/
def lines? (folded : Bool) (indent : Nat) :
    Nat → Text → Bool → BlockLead → Option (Text × Text × BlockLead)
  | 0, _, _, _ => none
  | fuel + 1, pending, blank, lead =>
      if lead.column ≠ indent ∨ lead.rest = [] then some ([], pending, lead)
      else do
        let line := lead.rest.takeWhile (!isBreak ·)
        let behind := lead.rest.drop line.length
        let next ← lead? indent 0 0 [] (behind.drop 1)
        let (text, last, final) ←
          lines? folded indent fuel (behind.take 1) (beginsBlank line) next
        some (jointOf folded pending blank lead ++ lead.breaks ++ line ++ text,
          last, final)

/-- The text below a header, and the rest.  The lines around it have fewer than
`floor` spaces. -/
def text? (header : BlockHeader) (floor : Nat) (rest : Text) :
    Option (Text × Text) := do
  let told := header.spaces.map (floor - 1 + ·)
  let first ← lead? (told.getD 0) 0 0 [] (rest.drop 1)
  let indent := told.getD (max first.widest (max floor 1))
  let (text, last, final) ←
      lines? header.folded indent (rest.length + 1) [] false first
  let ending :=
    match header.chomp with
    | .strip => []
    | .clip => last
    | .keep => last ++ final.breaks
  some (text ++ ending, final.rest)

end BlockHeader

end Yaml

end SqlDump
