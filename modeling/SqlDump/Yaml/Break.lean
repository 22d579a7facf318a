import SqlDump.Text.Blank

/-!
# Line breaks of YAML

Carriage returns, line feeds and next lines are the same break, which is a line
feed.  The two separators of Unicode are breaks of their own.  A scalar that
goes over several lines is folded into one.
-/

namespace SqlDump

namespace Yaml

def withLineFeeds : Text → Text
  | [] => []
  | '\r' :: '\n' :: rest => '\n' :: withLineFeeds rest
  | character :: rest =>
      (if character = '\r' ∨ character = '\u0085' then '\n' else character) ::
      withLineFeeds rest

def isPermitted (character : Char) : Bool :=
  let code := character.toNat
  code == 0x09 || code == 0x0A || code == 0x0D ||
    (0x20 ≤ code && code ≤ 0x7E) || code == 0x85 ||
    (0xA0 ≤ code && code != 0xFFFE && code != 0xFFFF)

def isBreak (character : Char) : Bool :=
  character == '\n' || character == '\u2028' || character == '\u2029'

def isGap (character : Char) : Bool :=
  isPadding character || isBreak character

def atGap : Text → Bool
  | [] => true
  | character :: _ => isGap character

def atBreak : Text → Bool
  | [] => true
  | character :: _ => isBreak character

/-- The rest begins with a mark of a document: three times a character, with a
gap behind it. -/
def atMark (character : Char) (rest : Text) : Bool :=
  (Text.after? [character, character, character] rest).any atGap

def atDocumentMark (rest : Text) : Bool :=
  atMark '-' rest || atMark '.' rest

/-- The rest of a line is blank up to a comment; what stands from its break
on. -/
def afterComment? (rest : Text) : Option Text :=
  let visible := rest.dropWhile isPadding
  let behind := if visible.head? = some '#' then visible.dropWhile (!isBreak ·)
    else visible
  if atBreak behind then some behind else none

/-- What a gap between two words stands for: a single line feed is a space, and
of several breaks the first counts for nothing if it is a line feed. -/
def joint (gap : Text) : Text :=
  match gap.filter isBreak with
  | [] => gap
  | ['\n'] => [' ']
  | '\n' :: breaks => breaks
  | breaks => breaks

end Yaml

end SqlDump
