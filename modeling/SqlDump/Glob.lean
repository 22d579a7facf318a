import SqlDump.Host

/-!
# Glob patterns

A pattern names files by wildcards.  It is matched component by component: a
star stands for any characters of one component, two stars for any number of
directories, a question mark for one character and brackets for one character of
a set.
-/

namespace SqlDump

inductive GlobToken where
  | char (char : Char)
  | anyChar
  | anySequence
  | anyDirectories
  | oneOf (ranges : List (Char × Char))
  | noneOf (ranges : List (Char × Char))
deriving DecidableEq, Repr

inductive GlobFault where
  | tooManyStars
  /-- Two stars share a component with something else. -/
  | starsInsideComponent
  /-- A bracket is not closed, or its set is empty. -/
  | openSet
deriving DecidableEq, Repr

structure GlobError where
  fault : GlobFault
  position : Nat
deriving DecidableEq, Repr

namespace GlobError

def reason : GlobFault → Text
  | .tooManyStars => "wildcards are either regular `*` or recursive `**`".toList
  | .starsInsideComponent =>
      "recursive wildcards must form a single path component".toList
  | .openSet => "invalid range pattern".toList

def message (error : GlobError) : Text :=
  "Pattern syntax error near position ".toList ++ Text.ofNat error.position ++
    ": ".toList ++ reason error.fault

end GlobError

namespace GlobToken

def inRanges (ranges : List (Char × Char)) (char : Char) : Bool :=
  ranges.any fun (low, high) => low ≤ char && char ≤ high

def accepts : GlobToken → Char → Bool
  | .char expected, found => expected == found
  | .anyChar, _ => true
  | .anySequence, _ => false
  | .anyDirectories, _ => false
  | .oneOf ranges, found => inRanges ranges found
  | .noneOf ranges, found => !inRanges ranges found

end GlobToken

abbrev Glob := List GlobToken

namespace Glob

/-- Ranges of a set; a character that is no range stands for itself. -/
def rangesOf : Text → List (Char × Char)
  | low :: '-' :: high :: rest => (low, high) :: rangesOf rest
  | char :: rest => (char, char) :: rangesOf rest
  | [] => []

/-- The set whose opening bracket stands in front of `rest`, and what follows
it.  The first character of a set never closes it. -/
def parseSet (rest : Text) : Option (GlobToken × Text) :=
  let excluded := rest.head? == some '!'
  match if excluded then rest.drop 1 else rest with
  | [] => none
  | first :: more =>
      let others := more.takeWhile (· != ']')
      if others.length < more.length then
        let ranges := rangesOf (first :: others)
        some (if excluded then .noneOf ranges else .oneOf ranges,
          more.drop (others.length + 1))
      else none

/-- A token of `rest` and what follows it; `before` is the character in front of
`rest`. -/
def parseToken (before : Option Char) (position : Nat) (head : Char)
    (tail : Text) : Except GlobError (GlobToken × Text) :=
  if head = '?' then .ok (.anyChar, tail)
  else if head = '[' then
    match parseSet tail with
    | some found => .ok found
    | none => .error ⟨.openSet, position⟩
  else if head = '*' then
    match tail with
    | '*' :: '*' :: _ => .error ⟨.tooManyStars, position + 2⟩
    | '*' :: after =>
        if before = none ∨ before = some '/' then
          match after with
          | [] => .ok (.anyDirectories, [])
          | '/' :: next => .ok (.anyDirectories, next)
          | _ => .error ⟨.starsInsideComponent, position + 2⟩
        else .error ⟨.starsInsideComponent, position - 1⟩
    | after => .ok (.anySequence, after)
  else .ok (.char head, tail)

/-- Read `rest`, which follows the first `position` characters; `fuel` bounds
its length. -/
def parseFrom : Nat → Option Char → Nat → Text → Except GlobError Glob
  | 0, _, _, _ => .ok []
  | _ + 1, _, _, [] => .ok []
  | fuel + 1, before, position, head :: tail => do
      let (token, next) ← parseToken before position head tail
      let taken := (head :: tail).take ((head :: tail).length - next.length)
      let tokens ← parseFrom fuel taken.getLast? (position + taken.length) next
      return token :: tokens

def parse (text : Text) : Except GlobError Glob :=
  parseFrom text.length none 0 text

/-- The name that a pattern without wildcards stands for. -/
def literal? : Glob → Option Text
  | [] => some []
  | .char char :: tokens => (literal? tokens).map (char :: ·)
  | _ :: _ => none

def isRecursive (pattern : Glob) : Bool :=
  pattern == [.anyDirectories]

/-- A star takes any number of the characters ahead. -/
def accepts : Glob → Text → Bool
  | [], name => name.isEmpty
  | .anySequence :: tokens, name =>
      (List.range (name.length + 1)).any fun taken =>
        accepts tokens (name.drop taken)
  | _ :: _, [] => false
  | token :: tokens, char :: name => token.accepts char && accepts tokens name

/-- A directory entry as a path; entries of the current directory stand for
themselves. -/
def entryPath (directory name : Text) : Text :=
  if Path.components directory = [['.']] then name else Path.join directory name

def isDots (name : Text) : Bool :=
  name == ['.'] || name == ['.', '.']

variable {m : Type → Type} [Monad m] [Host m]

def matchEntry (searchOn : List Glob → Text → m (List Text))
    (patterns : List Glob) (entry : Text) : m (List Text) :=
  match patterns, Path.fileName? entry with
  | first :: others, some name =>
      if first.accepts name then searchOn others entry else return []
  | _, _ => return []

/-- Search on from an entry of a directory.  A recursive pattern takes any
number of directories. -/
def searchEntry (searchOn : List Glob → Text → m (List Text)) (pattern : Glob)
    (patterns : List Glob) (entry : Text) : m (List Text) := do
  if isRecursive pattern then
    let others := patterns.dropWhile isRecursive
    let here ← matchEntry searchOn others entry
    if ← Host.isDirectory entry then
      return here ++ (← searchOn (pattern :: others) entry)
    else return here
  else matchEntry searchOn (pattern :: patterns) entry

/-- The paths below `path` that match the patterns component by component.
Every step takes a pattern or goes down by a directory, and `fuel` bounds the
number of steps. -/
def search : Nat → List Glob → Text → m (List Text)
  | _, [], path => return [path]
  | 0, _ :: _, _ => return []
  | fuel + 1, pattern :: patterns, path => do
      match literal? pattern with
      | some name =>
          let entry := entryPath path name
          if ← if isDots name then Host.isDirectory path
          else Host.pathExists entry then
            search fuel patterns entry
          else return []
      | none =>
          if !(← Host.isDirectory path) then return []
          let entries := (← Host.names path).map (entryPath path)
          let found ← entries.mapM fun entry =>
              searchEntry (search fuel) pattern patterns entry
          let dots := [['.'], ['.', '.']].filter fun name =>
            pattern.head? == some (.char '.') && accepts pattern name
          let around ← dots.mapM fun name =>
              search fuel patterns (Path.join path name)
          return found.flatten ++ around.flatten

/-- A path that can be opened has at most so many characters. -/
def longestPath : Nat := 4096

/-- The components of a pattern; a slash at the end of the pattern ends the last
one. -/
def componentsOf (text : Text) : List Text :=
  let relative := if Path.isAbsolute text then text.drop 1 else text
  let parts := relative.splitOn '/'
  if parts.getLast? = some [] then parts.dropLast else parts

/-- The regular files that a pattern names, in the order of paths.  Nothing with
a slash at its end names a regular file. -/
def files (text : Text) : m (Except GlobError (List Text)) := do
  match do let _ ← parse text; (componentsOf text).mapM parse with
  | .error error => return .error error
  | .ok patterns =>
      if patterns = [] ∨ Text.endsWith text ['/'] then return .ok []
      let start := if Path.isAbsolute text then ['/'] else ['.']
      let found ← search (patterns.length + longestPath) patterns start
      let regular ← found.filterM fun path => Host.isFile path
      return .ok (regular.mergeSort Path.le)

/-- A text with a character that can start a wildcard is a pattern. -/
def isPattern (text : Text) : Bool :=
  text.any fun char => char == '*' || char == '?' || char == '['

end Glob

end SqlDump
