import SqlDump.Guard
import SqlDump.Text.Utf8

/-!
# Segments of a stream

A stream of text is cut into the guards it contains and the text between them.
The scanner keeps its state between the chunks it is fed, so a guard may span
any number of them.  Text outside guards leaves with the chunk that brought it,
apart from the few characters that need the next chunk to be understood.
-/

namespace SqlDump

/-- A piece of the stream; a guard carries the line on which it opened. -/
inductive Segment where
  | text (text : Text)
  | guard (guard : Guard) (line : Nat)
deriving DecidableEq, Repr

inductive CommentKind where
  | guard (version : Nat)
  | plain
deriving DecidableEq, Repr

/-- A comment that is still open at the end of the stream, with the line of its
opening marker. -/
structure OpenComment where
  kind : CommentKind
  line : Nat
deriving DecidableEq, Repr

inductive ScanMode where
  | clean
  | inGuard
  | inComment
deriving DecidableEq, Repr

structure Scanner where
  lexer : Lexer := {}
  /-- Input that waits for more. -/
  ahead : Text := []
  /-- What was read since the last segment in reverse order; for an open guard,
  its content. -/
  gathered : Text := []
  /-- Digits of the open guard, or of the last one. -/
  digits : Text := []
  line : Nat := 1
  /-- Line of the outermost open comment, or of the last one. -/
  openedAt : Nat := 0
deriving DecidableEq, Repr

namespace Scanner

def mode (scanner : Scanner) : ScanMode :=
  if scanner.lexer.depth = 0 then .clean
  else if scanner.lexer.guarded then .inGuard
  else .inComment

/-- Bytes held for an open guard or an undecided marker. -/
def buffered (scanner : Scanner) : Nat :=
  (if scanner.lexer.guarded then Text.size (guardMarker ++ scanner.digits)
    else 0) +
    Text.size scanner.gathered + Text.size scanner.ahead

def textSegment (reversed : Text) : List Segment :=
  if reversed = [] then [] else [.text reversed.reverse]

def gather (scanner : Scanner) (piece : Text) : Scanner :=
  { scanner with gathered := piece.reverse ++ scanner.gathered }

/-- Enter the characters of one step, after which the lexer is in state
`after`. -/
def advance (scanner : Scanner) (taken : Step) (after : Lexer) (piece : Text) :
    Scanner × List Segment :=
  let moved := { scanner with lexer := after }
  match taken with
  | .openGuard _ =>
      ({ moved with
          gathered := []
          digits := piece.drop guardMarker.length
          openedAt := scanner.line },
        textSegment scanner.gathered)
  | .close =>
      if scanner.lexer.guarded ∧ after.depth = 0 then
        ({ moved with gathered := [] },
          [.guard ⟨scanner.digits, scanner.gathered.reverse⟩ scanner.openedAt])
      else (moved.gather piece, [])
  | .openPlain =>
      if scanner.lexer.depth = 0 then
        ({ moved with openedAt := scanner.line }.gather piece, [])
      else (moved.gather piece, [])
  | .skip _ =>
      if piece.head? = some '\n' then
        ({ moved with line := scanner.line + 1 }.gather piece, [])
      else (moved.gather piece, [])
  | .needMore => (moved, [])

/-- Read `rest` as far as it can be decided; the segments are collected in
reverse order. -/
def scanRest (atEnd : Bool) (scanner : Scanner) (found : List Segment) :
    Text → Scanner × List Segment
  | [] => ({ scanner with ahead := [] }, found)
  | head :: tail =>
      let taken := (scanner.lexer.step atEnd (head :: tail)).1
      let after := (scanner.lexer.step atEnd (head :: tail)).2
      if taken = .needMore then ({ scanner with ahead := head :: tail }, found)
      else
        let moved :=
          scanner.advance taken after ((head :: tail).take taken.consumed)
        scanRest atEnd moved.1 (moved.2.reverse ++ found)
          ((head :: tail).drop taken.consumed)
termination_by rest => rest.length
decreasing_by
  rename_i decided
  rcases scanner.lexer.step_eq_needMore_or_consumed_pos atEnd (head :: tail)
    with waits | moves
  · exact absurd waits decided
  · simp only [List.length_drop, List.length_cons]
    omega

/-- Release gathered text unless a guard is open. -/
def release (scanner : Scanner) : Scanner × List Segment :=
  if scanner.lexer.guarded then (scanner, [])
  else ({ scanner with gathered := [] }, textSegment scanner.gathered)

def scan (scanner : Scanner) (atEnd : Bool) (rest : Text) :
    Scanner × List Segment :=
  let (scanned, found) := scanRest atEnd scanner [] rest
  let (released, last) := scanned.release
  (released, found.reverse ++ last)

def feed (scanner : Scanner) (chunk : Text) : Scanner × List Segment :=
  scanner.scan false (scanner.ahead ++ chunk)

def openComment? (scanner : Scanner) : Option OpenComment :=
  match scanner.mode with
  | .clean => none
  | .inGuard => some ⟨.guard (versionOfDigits scanner.digits), scanner.openedAt⟩
  | .inComment => some ⟨.plain, scanner.openedAt⟩

/-- Release everything held back.  An open guard leaves as text and is reported.
The scanner then begins anew; the digits and the line of the last comment stay
until the next one opens. -/
def finish (scanner : Scanner) : Scanner × List Segment × Option OpenComment :=
  let (scanned, found) := scanner.scan true scanner.ahead
  let held : List Segment :=
    if scanned.mode = .inGuard then
      [.text (guardMarker ++ scanned.digits ++ scanned.gathered.reverse)]
    else []
  ({ scanned with lexer := {}, gathered := [], line := 1 }, found ++ held,
    scanned.openComment?)

end Scanner

end SqlDump
