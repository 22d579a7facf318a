import SqlDump.Yaml.Break

/-!
# Plain scalars of YAML

A plain scalar ends at a mark, at a comment or at a line with too few spaces.
-/

namespace SqlDump

namespace Yaml

structure PlainScalar where
  text : Text
  rest : Text
  brokeLine : Bool
deriving DecidableEq, Repr

namespace PlainScalar

def isFlowMark (character : Char) : Bool :=
  character == ',' || character == '[' || character == ']' || character ==
    '{' || character == '}'

/-- The first character can begin a plain scalar.  A dash, a question mark and a
colon are marks in front of a gap, the last two everywhere in a flow
collection. -/
def begins (inFlow : Bool) (head : Char) (tail : Text) : Bool :=
  if head = '-' then !(tail.head?.any isPadding)
  else if head = '?' ∨ head = ':' then !inFlow && !atGap tail
  else !isGap head && !isFlowMark head &&
    !"#&*!|>'\"%@\x60".toList.contains head

/-- In a flow collection a colon in front of a mark has to be quoted. -/
def isStrayColon (inFlow : Bool) (head : Char) (tail : Text) : Bool :=
  inFlow && head == ':' && tail.head?.any fun next => isFlowMark next ||
  next == '?'

def isEnd (inFlow : Bool) (head : Char) (tail : Text) : Bool :=
  (head == ':' && atGap tail) || (inFlow && isFlowMark head)

/-- Behind a gap the scalar ends at a comment, at a mark of a document, and
outside of flow collections on a line of fewer than `floor` spaces. -/
def isEndBehind (inFlow : Bool) (floor column : Nat) (gap rest : Text) : Bool :=
  gap != [] && (rest.head? == some '#' ||
    (gap.any isBreak &&
      ((!inFlow && column < floor) || (column == 0 && atDocumentMark rest))))

/-- The scalar at the start of a text.  In front of the text stand `gap`, and on
its line so far `column` characters, if the gap holds a break.  A tab does not
count as a space. -/
def read? (inFlow : Bool) (floor column : Nat) (gap : Text) :
    Text → Option PlainScalar
  | [] => some ⟨[], [], gap.any isBreak⟩
  | head :: tail =>
      if isGap head then
        if gap.any isBreak ∧ column < floor ∧ head = '\t' then none
        else read? inFlow floor (if isBreak head then 0 else column + 1)
          (gap ++ [head]) tail
      else if isEndBehind inFlow floor column gap (head :: tail) then
        some ⟨[], head :: tail, gap.any isBreak⟩
      else if isStrayColon inFlow head tail then none
      else if isEnd inFlow head tail then
        some ⟨[], head :: tail, gap.any isBreak⟩
      else
        match read? inFlow floor (column + 1) [] tail with
        | some found =>
            some { found with text := joint gap ++ head :: found.text }
        | none => none

end PlainScalar

end Yaml

end SqlDump
