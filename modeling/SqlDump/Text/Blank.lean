import SqlDump.Text.Basic

/-!
# Blank characters

The class White_Space of Unicode, the blanks of ASCII, and the operations that
strip them from the ends of a text.
-/

namespace SqlDump

/-- The 25 characters of the class White_Space. -/
def isBlank (character : Char) : Bool :=
  let code := character.toNat
  (9 ≤ code && code ≤ 13) || code == 0x20 || code == 0x85 || code == 0xA0 ||
    code == 0x1680 ||
    (0x2000 ≤ code && code ≤ 0x200A) || code == 0x2028 || code == 0x2029 ||
      code == 0x202F ||
    code == 0x205F || code == 0x3000

/-- The blanks between tokens: space, tab, line feed, form feed and carriage
return.  The vertical tab is none of them. -/
def isAsciiBlank (character : Char) : Bool :=
  character == ' ' || character == '\t' || character == '\n' ||
  character == '\x0c' ||
    character == '\r'

def isPadding (character : Char) : Bool :=
  character == ' ' || character == '\t'

namespace Text

def trimStart (text : Text) : Text :=
  text.dropWhile isBlank

def trimEnd (text : Text) : Text :=
  text.dropEndWhile isBlank

def trim (text : Text) : Text :=
  (text.trimStart).trimEnd

def isAllBlank (text : Text) : Bool :=
  text.all isBlank

/-- The rest behind a run of blanks, which must not be empty. -/
def afterBlanks? (text : Text) : Option Text :=
  match text with
  | [] => none
  | head :: tail => if isBlank head then some (trimStart tail) else none

end Text

theorem isBlank_of_isAsciiBlank {character : Char}
    (blank : isAsciiBlank character = true) :
    isBlank character = true := by
  simp only [isAsciiBlank, Bool.or_eq_true, beq_iff_eq] at blank
  rcases blank with (((rfl | rfl) | rfl) | rfl) | rfl <;> decide

end SqlDump
