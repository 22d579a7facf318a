import SqlDump.Lexer.Trivia
import SqlDump.Text.Letter
import SqlDump.Text.Utf8

/-!
# Units of a stream

A unit runs from the end of the unit before it through its terminator, together
with the spaces and tabs behind it and one line break if the line ends there.
Comments in front of a statement therefore belong to its unit.  A `DELIMITER`
line is a unit of its own and sets the terminator of the units that follow.
-/

namespace SqlDump

inductive UnitKind where
  /-- Text through a terminator. -/
  | statement
  /-- A line that sets the terminator. -/
  | directive
  /-- What remained at the end of the stream. -/
  | trailing
deriving DecidableEq, Repr

structure StatementUnit where
  kind : UnitKind
  atLineStart : Bool
  text : Text
deriving DecidableEq, Repr

def directiveKeyword : Text := ['D', 'E', 'L', 'I', 'M', 'I', 'T', 'E', 'R']

inductive Probe (α : Type) where
  | found (value : α)
  | absent
  | needMore

/-- Length of the directive line at the start of the text, with its line
break. -/
def directiveLength (atEnd : Bool) (text : Text) : Probe Nat :=
  match text.drop directiveKeyword.length with
  | [] =>
      if Text.sameAsciiWord (directiveKeyword.take text.length) text &&
      !atEnd then .needMore
      else .absent
  | separator :: _ =>
      if Text.sameAsciiWord directiveKeyword
        (text.take directiveKeyword.length) &&
          isPadding separator then
        let line := (text.takeWhile (· != '\n')).length
        if line < text.length then .found (line + 1)
        else if atEnd then .found line
        else .needMore
      else .absent

/-- Number of characters behind a terminator that still belong to its unit;
`none` if that depends on what follows. -/
def unitTail? (atEnd : Bool) (behind : Text) : Option Nat :=
  let padding := (behind.takeWhile isPadding).length
  match behind.drop padding with
  | [] => if atEnd then some padding else none
  | '\n' :: _ => some (padding + 1)
  | '\r' :: '\n' :: _ => some (padding + 2)
  | ['\r'] => if atEnd then some 0 else none
  | _ => some 0

structure Delimiter where
  text : Text
  nonempty : text ≠ []
deriving DecidableEq, Repr

namespace Delimiter

def semicolon : Delimiter :=
  ⟨[';'], by simp⟩

/-- The first word behind the keyword of a directive. -/
def ofArguments? (arguments : Text) : Option Delimiter :=
  match (arguments.trimStart).takeWhile (fun character => !isBlank character)
    with
  | [] => none
  | head :: tail => some ⟨head :: tail, by simp⟩

end Delimiter

structure StatementAssembler where
  /-- Lexed text of the unfinished unit in reverse order. -/
  lexed : Text := []
  ahead : Text := []
  lexer : Lexer := {}
  delimiter : Delimiter := .semicolon
  tokenSeen : Bool := false
  atLineStart : Bool := true
  statements : Nat := 0
deriving DecidableEq, Repr

namespace StatementAssembler

def buffered (assembler : StatementAssembler) : Nat :=
  Text.size assembler.lexed + Text.size assembler.ahead

/-- Finish the unit with the next `count` characters. -/
def cut (assembler : StatementAssembler) (kind : UnitKind) (count : Nat) :
    StatementAssembler × StatementUnit :=
  let reversed := (assembler.ahead.take count).reverse ++ assembler.lexed
  ({ assembler with
      lexed := []
      ahead := assembler.ahead.drop count
      tokenSeen := false
      atLineStart := reversed.head? == some '\n' },
    ⟨kind, assembler.atLineStart, reversed.reverse⟩)

/-- Lex one step of the unfinished unit; `none` if the step needs more input. -/
def lexOne? (atEnd : Bool) (assembler : StatementAssembler) :
    Option StatementAssembler :=
  let taken := (assembler.lexer.step atEnd assembler.ahead).1
  let after := (assembler.lexer.step atEnd assembler.ahead).2
  if taken = .needMore then none
  else
    let token :=
      assembler.lexer.atTopLevel && !(assembler.ahead.head?.any isAsciiBlank) &&
        taken != .openPlain && after.lex != .lineComment
    some { assembler with
      lexed := (assembler.ahead.take taken.consumed).reverse ++ assembler.lexed
      ahead := assembler.ahead.drop taken.consumed
      lexer := after
      tokenSeen := assembler.tokenSeen || token }

def takeDirective (assembler : StatementAssembler) (length : Nat) :
    StatementAssembler × StatementUnit :=
  let arguments := (assembler.ahead.take length).drop directiveKeyword.length
  { assembler with
    delimiter := (Delimiter.ofArguments? arguments).getD
      assembler.delimiter }.cut .directive length

/-- Length of a directive line that begins the text ahead; only the first token
of a unit can be the keyword. -/
def directiveProbe (atEnd : Bool) (assembler : StatementAssembler) :
    Probe Nat :=
  if assembler.lexer.atTopLevel && !assembler.tokenSeen &&
      assembler.ahead.head?.any (fun head => head.toLower == 'd') then
    directiveLength atEnd assembler.ahead
  else .absent

/-- The text behind a terminator in force that begins the text ahead. -/
def behindDelimiter? (assembler : StatementAssembler) : Option Text :=
  if assembler.lexer.atTopLevel then
    Text.after? assembler.delimiter.text assembler.ahead
  else none

/-- The text ahead may turn out to begin with the terminator. -/
def beginsDelimiter (assembler : StatementAssembler) : Bool :=
  assembler.lexer.atTopLevel &&
  assembler.ahead.isPrefixOf assembler.delimiter.text

def takeStatement (assembler : StatementAssembler) (tailLength : Nat) :
    StatementAssembler × StatementUnit :=
  { assembler with statements := assembler.statements + 1 }.cut .statement
    (assembler.delimiter.text.length + tailLength)

/-- One move through the text ahead, with the unit it finishes; `none` if more
input has to decide. -/
def move? (atEnd : Bool) (assembler : StatementAssembler) :
    Option (StatementAssembler × Option StatementUnit) :=
  match assembler.directiveProbe atEnd with
  | .needMore => none
  | .found length =>
      let taken := assembler.takeDirective length
      some (taken.1, some taken.2)
  | .absent =>
      match assembler.behindDelimiter? with
      | some behind =>
          (unitTail? atEnd behind).map fun tailLength =>
            let taken := assembler.takeStatement tailLength
            (taken.1, some taken.2)
      | none =>
          if !atEnd && assembler.beginsDelimiter then none
          else (assembler.lexOne? atEnd).map fun moved => (moved, none)

theorem length_ahead_cut (assembler : StatementAssembler) (kind : UnitKind)
    (count : Nat) :
    (assembler.cut kind count).1.ahead.length = assembler.ahead.length -
      count := by
  simp [cut]

theorem directiveLength_pos {atEnd : Bool} {text : Text} {length : Nat}
    (found : directiveLength atEnd text = .found length) : 0 < length := by
  unfold directiveLength at found
  have line := Lexer.length_takeWhile_le (· != '\n') text
  grind

theorem length_lexOne?_lt {atEnd : Bool} {assembler moved : StatementAssembler}
    (success : assembler.lexOne? atEnd = some moved) :
    moved.ahead.length < assembler.ahead.length := by
  have progress := assembler.lexer.step_eq_needMore_or_consumed_pos atEnd
    assembler.ahead
  have fits := assembler.lexer.consumed_step_le atEnd assembler.ahead
  unfold lexOne? at success
  dsimp only at success
  split at success
  · simp at success
  · next decided =>
      simp only [Option.some.injEq] at success
      have moves := progress.resolve_left decided
      rw [← success]
      simp only [List.length_drop]
      omega

theorem length_move?_lt {atEnd : Bool} {assembler moved : StatementAssembler}
    {finished : Option StatementUnit}
    (success : assembler.move? atEnd = some (moved, finished)) :
    moved.ahead.length < assembler.ahead.length := by
  unfold move? at success
  split at success
  · simp at success
  · next length probe =>
      simp only [Option.some.injEq, Prod.mk.injEq] at success
      unfold directiveProbe at probe
      split at probe
      · next keyword =>
          have positive := directiveLength_pos probe
          have nonempty : 0 < assembler.ahead.length := by
            cases ahead : assembler.ahead with
            | nil => simp [ahead] at keyword
            | cons head tail => simp
          rw [← success.1]
          simp only [takeDirective, length_ahead_cut]
          omega
      · simp at probe
  · split at success
    · next behind begins =>
        simp only [Option.map_eq_some_iff, Prod.mk.injEq] at success
        obtain ⟨tailLength, _, movedEq, _⟩ := success
        unfold behindDelimiter? at begins
        split at begins
        · have aheadEq :=
            congrArg List.length (Text.after?_eq_some_iff.mp begins)
          have positive := List.length_pos_iff.mpr assembler.delimiter.nonempty
          rw [← movedEq]
          simp only [takeStatement, length_ahead_cut]
          rw [List.length_append] at aheadEq
          omega
        · simp at begins
    · split at success
      · simp at success
      · simp only [Option.map_eq_some_iff, Prod.mk.injEq] at success
        obtain ⟨lexed, lexedEq, movedEq, _⟩ := success
        exact movedEq ▸ length_lexOne?_lt lexedEq

/-- Move as far as the text ahead decides; the units are collected in reverse
order. -/
def run (atEnd : Bool) (assembler : StatementAssembler)
    (found : List StatementUnit) : StatementAssembler × List StatementUnit :=
  match _success : assembler.move? atEnd with
  | none => (assembler, found.reverse)
  | some (moved, finished) => run atEnd moved (finished.toList ++ found)
termination_by assembler.ahead.length
decreasing_by exact length_move?_lt _success

def push (assembler : StatementAssembler) (text : Text) :
    StatementAssembler × List StatementUnit :=
  run false { assembler with ahead := assembler.ahead ++ text } []

def previewLength : Nat := 60

def preview (text : Text) : Text :=
  let trimmed := text.trim
  if previewLength < trimmed.length then
    trimmed.take previewLength ++ ['.', '.', '.']
  else trimmed

/-- Release the remainder as a trailing unit, with a preview if it holds a
token.  The assembler is then as new, apart from its terminator and its
count. -/
def finish (assembler : StatementAssembler) :
    StatementAssembler × List StatementUnit × Option Text :=
  let (drained, units) := run true assembler []
  let remainder := drained.lexed.reverse ++ drained.ahead
  let trailing : List StatementUnit :=
    if remainder = [] then [] else [⟨.trailing, drained.atLineStart, remainder⟩]
  ({ delimiter := drained.delimiter, statements := drained.statements },
    units ++ trailing,
    if drained.tokenSeen then some (preview remainder) else none)

end StatementAssembler

end SqlDump
