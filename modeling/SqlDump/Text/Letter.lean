import SqlDump.Text.Basic

/-!
# Words in any letter case

Two readings of "the same letter".  Simple case folding also takes the long s
for an s and the Kelvin sign for a k, and holds for the words of statements.
ASCII folding takes a letter for its other case and nothing else.
-/

namespace SqlDump

/-- The small letter that stands for both cases of an ASCII letter under simple
case folding. -/
def foldLetter (character : Char) : Char :=
  if character = '\u017F' then 's'
  else if character = '\u212A' then 'k'
  else character.toLower

namespace Text

/-- The rest behind `word`, read in any letter case. -/
def afterWord? : Text → Text → Option Text
  | [], text => some text
  | _ :: _, [] => none
  | wanted :: word, found :: text =>
      if foldLetter found = foldLetter wanted then afterWord? word text
      else none

def sameAsciiWord (left right : Text) : Bool :=
  left.map Char.toLower == right.map Char.toLower

end Text

end SqlDump
