import SqlDump.Yaml.Break
import SqlDump.Yaml.Scalar

/-!
# Quoted scalars of YAML

Every reading begins behind the opening quote and gives the text and what stands
behind the closing quote.  A quoted scalar cannot go on behind a mark of a
document.
-/

namespace SqlDump

namespace Yaml

def prepend (text : Text) : Option (Text × Text) → Option (Text × Text)
  | some (more, rest) => some (text ++ more, rest)
  | none => none

/-- The text up to the closing single quote; two quotes stand for one.  In front
of it stands a gap. -/
def singleQuoted? (gap : Text) : Text → Option (Text × Text)
  | [] => none
  | '\'' :: '\'' :: rest =>
      prepend (joint gap ++ ['\'']) (singleQuoted? [] rest)
  | '\'' :: rest => some (joint gap, rest)
  | head :: tail =>
      if isGap head then singleQuoted? (gap ++ [head]) tail
      else if gap.getLast?.any isBreak ∧ atDocumentMark (head :: tail) then none
      else prepend (joint gap ++ [head]) (singleQuoted? [] tail)

def coded? (digits : Text) : Option Char :=
  match Scalar.digits? 16 digits with
  | none => none
  | some code => if code.isValidChar then some (Char.ofNat code) else none

def escaped? (letter : Char) : Option Char :=
  [('0', '\x00'), ('a', '\x07'), ('b', '\x08'), ('t', '\t'), ('\t', '\t'),
    ('n', '\n'),
    ('v', '\x0b'), ('f', '\x0c'), ('r', '\r'), ('e', '\x1b'), (' ', ' '),
      ('"', '"'), ('/', '/'),
    ('\\', '\\'), ('N', '\u0085'), ('_', '\u00a0'), ('L', '\u2028'),
      ('P', '\u2029')].lookup letter

/-- What a gap stands for; `joined` tells that a backslash took the break in
front of it away. -/
def jointBehind (joined : Bool) (gap : Text) : Text :=
  if joined then gap.filter isBreak else joint gap

def beginsLine (joined : Bool) (gap : Text) : Bool :=
  match gap.getLast? with
  | some last => isBreak last
  | none => joined

def doubleQuoted? (joined : Bool) (gap : Text) : Text → Option (Text × Text)
  | [] => none
  | '"' :: rest => some (jointBehind joined gap, rest)
  | '\\' :: 'x' :: a :: b :: rest => do
      let character ← coded? [a, b]
      prepend (jointBehind joined gap ++ [character])
        (doubleQuoted? false [] rest)
  | '\\' :: 'u' :: a :: b :: c :: d :: rest => do
      let character ← coded? [a, b, c, d]
      prepend (jointBehind joined gap ++ [character])
        (doubleQuoted? false [] rest)
  | '\\' :: 'U' :: a :: b :: c :: d :: e :: f :: g :: h :: rest => do
      let character ← coded? [a, b, c, d, e, f, g, h]
      prepend (jointBehind joined gap ++ [character])
        (doubleQuoted? false [] rest)
  | '\\' :: letter :: rest =>
      if isBreak letter then
        prepend (jointBehind joined gap) (doubleQuoted? true [] rest)
      else do
        let character ← escaped? letter
        prepend (jointBehind joined gap ++ [character])
          (doubleQuoted? false [] rest)
  | head :: tail =>
      if isGap head then doubleQuoted? joined (gap ++ [head]) tail
      else if beginsLine joined gap ∧ atDocumentMark (head :: tail) then none
      else prepend (jointBehind joined gap ++ [head])
        (doubleQuoted? false [] tail)

end Yaml

end SqlDump
