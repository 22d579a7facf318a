import SqlDump.Text.Basic

/-!
# Paths

Paths are texts whose components are separated by slashes.  Empty components and
single dots count for nothing, apart from a dot at the start.
-/

namespace SqlDump

namespace Path

/-- What stands in front of the components: the root, or a dot for the current
directory. -/
def anchor : Text → Text
  | '/' :: _ => ['/']
  | ['.'] => ['.']
  | '.' :: '/' :: _ => ['.']
  | _ => []

def isSkipped (component : Text) : Bool :=
  component == [] || component == ['.']

/-- A text split at its last slash, which belongs to neither part. -/
def splitLast (path : Text) : Text × Text :=
  let last := (path.reverse.takeWhile (· != '/')).reverse
  (path.take (path.length - last.length - 1), last)

/-- The path without components that count for nothing at its end; `fuel` bounds
their number. -/
def trimmed : Nat → Text → Text
  | 0, path => path
  | fuel + 1, path =>
      if path = [] then []
      else if isSkipped (splitLast path).2 then trimmed fuel (splitLast path).1
      else path

/-- The components behind the anchor, without those at the end that count for
nothing. -/
def body (path : Text) : Text :=
  trimmed path.length (path.drop (anchor path).length)

def parent? (path : Text) : Option Text :=
  match body path with
  | [] => if anchor path = ['.'] then some [] else none
  | head :: tail =>
      let front := (splitLast (head :: tail)).1
      some (anchor path ++ trimmed front.length front)

/-- The last component, unless it points upwards. -/
def fileName? (path : Text) : Option Text :=
  match body path with
  | [] => none
  | head :: tail =>
      let last := (splitLast (head :: tail)).2
      if last = ['.', '.'] then none else some last

/-- What stands behind the last dot of the file name; a dot at its start does
not count. -/
def extension? (path : Text) : Option Text := do
  let name ← fileName? path
  let ending := (name.reverse.takeWhile (· != '.')).reverse
  if ending.length + 1 < name.length then some ending else none

def isAbsolute (path : Text) : Bool :=
  path.head? == some '/'

def join (base path : Text) : Text :=
  if isAbsolute path ∨ base = [] then path
  else if Text.endsWith base ['/'] then base ++ path
  else base ++ '/' :: path

def components (path : Text) : List Text :=
  (if anchor path = [] then [] else [anchor path]) ++
    ((path.drop (anchor path).length).splitOn '/').filter fun component =>
      !isSkipped component

/-- The root stands before the current directory, that before the parent
directory, and that before every name; names are in the order of their
characters. -/
def componentKey (component : Text) : List Nat :=
  let rank :=
    if component = ['/'] then 0
    else if component = ['.'] then 1
    else if component = ['.', '.'] then 2
    else 3
  rank :: component.map Char.toNat

def componentBefore (left right : Text) : Bool :=
  List.lex (componentKey left) (componentKey right) Nat.blt

def le (left right : Text) : Bool :=
  !List.lex (components right) (components left) componentBefore

end Path

end SqlDump
