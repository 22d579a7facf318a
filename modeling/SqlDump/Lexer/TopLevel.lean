import SqlDump.Lexer

/-!
# Search at the top level

Places of a text that lie in code outside every literal and comment, when the
text is lexed from its start.
-/

namespace SqlDump

namespace Lexer

/-- Number of characters before the first top-level `target`. -/
def find? (target : Char) (lexer : Lexer) : Text → Option Nat
  | [] => none
  | head :: tail =>
      if lexer.atTopLevel && head == target then some 0
      else
        ((lexer.next (head :: tail)).find? target
            ((head :: tail).drop (lexer.taken (head :: tail)))).map
          (lexer.taken (head :: tail) + ·)
termination_by text => text.length
decreasing_by exact lexer.length_drop_taken_lt head tail

/-- Number of characters before the parenthesis that closes the outermost of
`depth` open ones. -/
def findClosing? (depth : Nat) (lexer : Lexer) : Text → Option Nat
  | [] => none
  | head :: tail =>
      if lexer.atTopLevel && head == ')' && depth ≤ 1 then some 0
      else
        let inner :=
          if lexer.atTopLevel && head == '(' then depth + 1
          else if lexer.atTopLevel && head == ')' then depth - 1
          else depth
        ((lexer.next (head :: tail)).findClosing? inner
            ((head :: tail).drop (lexer.taken (head :: tail)))).map
          (lexer.taken (head :: tail) + ·)
termination_by text => text.length
decreasing_by exact lexer.length_drop_taken_lt head tail

end Lexer

def findTopLevel? (target : Char) (text : Text) : Option Nat :=
  Lexer.find? target {} text

/-- The place of the parenthesis that closes the one at the start of the
text. -/
def matchingParenthesis? (text : Text) : Option Nat :=
  Lexer.findClosing? 0 {} text

end SqlDump
