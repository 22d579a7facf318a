import SqlDump.Segment
import SqlDump.Text.Blank
import SqlDump.Text.Letter

/-!
# Taking guards off

Guards below the threshold lose their markers, everything else is copied.  The
freed text is held back until the text behind it arrives, because a terminator
that follows the guard at once belongs to the freed statement.  Where the
terminator moved in front of a line break, the line break that stood behind the
guard would leave a blank line; the collapse mode says which ones go.
-/

namespace SqlDump

/-- Which line breaks right behind a moved terminator are dropped. -/
inductive Collapse where
  | off
  | lf
  | any
deriving DecidableEq, Repr

namespace Collapse

def name : Collapse → Text
  | .off => ['o', 'f', 'f']
  | .lf => ['l', 'f']
  | .any => ['a', 'n', 'y']

/-- The mode with this name, in any letter case; `none` and `crlf` are second
names. -/
def ofName? (name : Text) : Option Collapse :=
  let named (word : String) : Bool := Text.sameAsciiWord name word.toList
  if named "off" || named "none" then some .off
  else if named "lf" then some .lf
  else if named "any" || named "crlf" then some .any
  else none

def unknownMessage (name : Text) : Text :=
  "Unknown collapse mode: ".toList ++ name ++
  ". Valid options: off, lf, any".toList

end Collapse

inductive Pending where
  | none
  | body (body : Text)
  /-- A line break at the start of the next text is redundant. -/
  | lineBreak
  /-- A carriage return was held back; a line feed would make the two
  redundant. -/
  | lineFeed
deriving DecidableEq, Repr

structure Unwrapper where
  threshold : Nat := defaultThreshold
  collapse : Collapse := .any
  pending : Pending := .none
  unwrapped : Nat := 0
  kept : Nat := 0
  reattached : Nat := 0
deriving DecidableEq, Repr

namespace Unwrapper

/-- The guarded text without the spaces and tabs at its ends. -/
def strippedInner (guard : Guard) : Text :=
  Text.dropEndWhile isPadding (guard.inner.dropWhile isPadding)

/-- What leaves when nothing more arrives. -/
def heldBack : Pending → Text
  | .none => []
  | .body body => body
  | .lineBreak => []
  | .lineFeed => ['\r']

def finish (unwrapper : Unwrapper) : Unwrapper × Text :=
  ({ unwrapper with pending := .none }, heldBack unwrapper.pending)

def acceptGuard (unwrapper : Unwrapper) (guard : Guard) : Unwrapper × Text :=
  let held := heldBack unwrapper.pending
  if shouldUnwrap guard.version unwrapper.threshold then
    ({ unwrapper with
        pending := .body (strippedInner guard)
        unwrapped := unwrapper.unwrapped + 1 }, held)
  else
    ({ unwrapper with
        pending := .none
        kept := unwrapper.kept + 1 }, held ++ guard.raw)

/-- Drop a redundant line break from the start of `text`, which is not empty. -/
def dropLineBreak (unwrapper : Unwrapper) (text : Text) : Unwrapper × Text :=
  let settled := { unwrapper with pending := .none }
  match text with
  | '\n' :: rest => (settled, rest)
  | ['\r'] =>
      if unwrapper.collapse = .any then
        ({ unwrapper with pending := .lineFeed }, [])
      else (settled, text)
  | '\r' :: '\n' :: rest =>
      if unwrapper.collapse = .any then (settled, rest) else (settled, text)
  | _ => (settled, text)

/-- The freed text with a terminator behind its last character that is no
blank. -/
def terminated (body : Text) : Text :=
  let code := body.trimEnd
  if code.endsWith [';'] then body else code ++ ';' :: body.drop code.length

/-- Move the terminator that followed the guard onto its text; `rest` is what
followed it. -/
def reattach (unwrapper : Unwrapper) (body rest : Text) : Unwrapper × Text :=
  let counted := { unwrapper with
    pending := .none
    reattached := unwrapper.reattached + 1 }
  let blanks := body.drop body.trimEnd.length
  if counted.collapse = .off ∨ Text.endsWith blanks ['\n'] = false then
    (counted, terminated body ++ rest)
  else if rest = [] then
    ({ counted with pending := .lineBreak }, terminated body)
  else
    let (settled, kept) := counted.dropLineBreak rest
    (settled, terminated body ++ kept)

def acceptText (unwrapper : Unwrapper) (text : Text) : Unwrapper × Text :=
  match text with
  | [] => (unwrapper, [])
  | head :: tail =>
      match unwrapper.pending with
      | .none => (unwrapper, text)
      | .body body =>
          if head = ';' then unwrapper.reattach body tail
          else ({ unwrapper with pending := .none }, body ++ text)
      | .lineBreak => unwrapper.dropLineBreak text
      | .lineFeed =>
          if head = '\n' then ({ unwrapper with pending := .none }, tail)
          else ({ unwrapper with pending := .none }, '\r' :: text)

def accept (unwrapper : Unwrapper) : Segment → Unwrapper × Text
  | .text text => unwrapper.acceptText text
  | .guard guard _ => unwrapper.acceptGuard guard

def acceptAll (unwrapper : Unwrapper) : List Segment → Unwrapper × Text
  | [] => (unwrapper, [])
  | segment :: segments =>
      let (accepted, first) := unwrapper.accept segment
      let (last, rest) := accepted.acceptAll segments
      (last, first ++ rest)

end Unwrapper

end SqlDump
