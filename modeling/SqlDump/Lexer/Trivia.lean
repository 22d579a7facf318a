import SqlDump.Lexer
import SqlDump.Text.Blank

/-!
# Trivia in front of a statement

Blanks, line comments and plain comments in front of the first token.  A guard
is a token.
-/

namespace SqlDump

namespace Lexer

/-- A step from the top level that begins a comment instead of a token. -/
def beginsComment : Step × Lexer → Bool
  | (.openPlain, _) => true
  | (.skip _, after) => after.lex == .lineComment
  | _ => false

def triviaLength (lexer : Lexer) : Text → Nat
  | [] => 0
  | head :: tail =>
      if lexer.atTopLevel && isAsciiBlank head then 1 + lexer.triviaLength tail
      else if lexer.atTopLevel &&
        !beginsComment (lexer.step true (head :: tail)) then 0
      else
        lexer.taken (head :: tail) +
          (lexer.next (head :: tail)).triviaLength
            ((head :: tail).drop (lexer.taken (head :: tail)))
termination_by text => text.length
decreasing_by
  · simp
  · exact lexer.length_drop_taken_lt head tail

end Lexer

/-- Number of characters in front of the first token; all of them if there is no
token. -/
def statementOffset (text : Text) : Nat :=
  ({} : Lexer).triviaLength text

/-- The keyword at the start of the text: ASCII letters and underscores. -/
def leadingWord (text : Text) : Text :=
  text.takeWhile fun character => character.isAlpha || character == '_'

end SqlDump
