import SqlDump.Text.Basic

/-!
# Lexing of statements

Just enough of the language to tell code from literals and comments.  A step
looks at the rest of the input and says how many of its characters belong
together.  If the end of what has arrived hides the answer, the step asks for
more input and leaves the state alone.

Single and double quoted literals have backslash escapes, names in backticks
have none.  `-- ` and `#` begin a line comment.  A versioned marker at the top
level opens a guard, whose content is code; every other opening marker opens a
plain comment.  Comments nest, and inside a plain comment only the two markers
count.
-/

namespace SqlDump

def singleQuote : Char := '\x27'
def doubleQuote : Char := '\x22'
def backtick : Char := '\x60'
def backslash : Char := '\x5c'

def isQuote (character : Char) : Bool :=
  character == singleQuote || character == doubleQuote || character == backtick

/-- What the next character of the current code level is part of. -/
inductive Lex where
  | code
  | quoted (quote : Char)
  | escaped (quote : Char)
  | lineComment
deriving DecidableEq, Repr

/-- One decision about the characters at the cursor. -/
inductive Step where
  | skip (count : Nat)
  /-- The marker of a guard together with its digits. -/
  | openGuard (count : Nat)
  | openPlain
  | close
  /-- The characters that follow decide. -/
  | needMore
deriving DecidableEq, Repr

def Step.consumed : Step → Nat
  | .skip count => count
  | .openGuard count => count
  | .openPlain => 2
  | .close => 2
  | .needMore => 0

/-- Number of open comments, whether the outermost one is a guard, and the place
inside code. -/
structure Lexer where
  depth : Nat := 0
  guarded : Bool := false
  lex : Lex := .code
deriving DecidableEq, Repr

namespace Lexer

/-- Code outside every literal and comment. -/
def atTopLevel (lexer : Lexer) : Bool :=
  lexer.depth == 0 && lexer.lex == .code

/-- Code outside every comment, or directly inside a guard. -/
def inCode (lexer : Lexer) : Bool :=
  lexer.lex == .code &&
  (lexer.depth == 0 || (lexer.guarded && lexer.depth == 1))

def closeOne (lexer : Lexer) : Lexer where
  depth := lexer.depth - 1
  guarded := lexer.guarded && lexer.depth != 1
  lex := .code

def openOne (lexer : Lexer) : Lexer :=
  { lexer with depth := lexer.depth + 1 }

def enterGuard (lexer : Lexer) : Lexer :=
  { lexer with depth := 1, guarded := true }

def stepStar (lexer : Lexer) (atEnd : Bool) : Text → Step × Lexer
  | [] => if atEnd then (.skip 1, lexer) else (.needMore, lexer)
  | next :: _ =>
      if next = '/' then (.close, lexer.closeOne) else (.skip 1, lexer)

def stepMarker (lexer : Lexer) (atEnd : Bool) : Text → Step × Lexer
  | [] => if atEnd then (.openPlain, lexer.openOne) else (.needMore, lexer)
  | next :: rest =>
      if next = '!' then
        let digits := rest.takeWhile Char.isDigit
        if digits.length = rest.length ∧ atEnd = false then (.needMore, lexer)
        else if digits = [] then (.skip 3, lexer)
        else (.openGuard (3 + digits.length), lexer.enterGuard)
      else (.openPlain, lexer.openOne)

def stepSlash (lexer : Lexer) (atEnd : Bool) : Text → Step × Lexer
  | [] => if atEnd then (.skip 1, lexer) else (.needMore, lexer)
  | next :: rest =>
      if next = '*' then
        if lexer.depth = 0 then lexer.stepMarker atEnd rest
        else (.openPlain, lexer.openOne)
      else (.skip 1, lexer)

def stepDash (lexer : Lexer) (atEnd : Bool) : Text → Step × Lexer
  | [] => if atEnd then (.skip 1, lexer) else (.needMore, lexer)
  | next :: rest =>
      if next = '-' then
        match rest with
        | [] =>
            if atEnd then (.skip 2, { lexer with lex := .lineComment })
            else (.needMore, lexer)
        | third :: _ =>
            if third = ' ' ∨ third = '\t' ∨ third = '\r' ∨ third = '\n' then
              (.skip 2, { lexer with lex := .lineComment })
            else (.skip 1, lexer)
      else (.skip 1, lexer)

/-- The rest begins with `head` and the cursor is in no literal. -/
def stepPlain (lexer : Lexer) (atEnd : Bool) (head : Char) (tail : Text) :
    Step × Lexer :=
  if head = '*' ∧ 0 < lexer.depth then lexer.stepStar atEnd tail
  else if head = '/' ∧ lexer.lex ≠ .lineComment then lexer.stepSlash atEnd tail
  else if lexer.inCode then
    if isQuote head then (.skip 1, { lexer with lex := .quoted head })
    else if head = '#' then (.skip 1, { lexer with lex := .lineComment })
    else if head = '-' then lexer.stepDash atEnd tail
    else (.skip 1, lexer)
  else if head = '\n' ∧ lexer.lex = .lineComment then
    (.skip 1, { lexer with lex := .code })
  else (.skip 1, lexer)

/-- Classify the characters at the cursor.  With `atEnd` the rest is all there
will ever be. -/
def step (lexer : Lexer) (atEnd : Bool) : Text → Step × Lexer
  | [] => (.needMore, lexer)
  | head :: tail =>
      match lexer.lex with
      | .quoted quote =>
          if head = quote then (.skip 1, { lexer with lex := .code })
          else if head = backslash ∧ quote ≠ backtick then
            (.skip 1, { lexer with lex := .escaped quote })
          else (.skip 1, lexer)
      | .escaped quote => (.skip 1, { lexer with lex := .quoted quote })
      | .code => lexer.stepPlain atEnd head tail
      | .lineComment => lexer.stepPlain atEnd head tail

/-- Number of characters that a step at the end of input takes. -/
def taken (lexer : Lexer) (rest : Text) : Nat :=
  (lexer.step true rest).1.consumed

/-- The state after a step at the end of input. -/
def next (lexer : Lexer) (rest : Text) : Lexer :=
  (lexer.step true rest).2

theorem length_takeWhile_le (keeps : Char → Bool) (text : Text) :
    (text.takeWhile keeps).length ≤ text.length :=
  (List.takeWhile_sublist keeps).length_le

theorem step_eq_needMore_or_consumed_pos (lexer : Lexer) (atEnd : Bool)
    (rest : Text) :
    (lexer.step atEnd rest).1 = .needMore ∨
      0 < (lexer.step atEnd rest).1.consumed := by
  unfold step stepPlain stepStar stepSlash stepMarker stepDash
  grind [Step.consumed]

theorem consumed_step_le (lexer : Lexer) (atEnd : Bool) (rest : Text) :
    (lexer.step atEnd rest).1.consumed ≤ rest.length := by
  have digitsFit : ∀ text : Text, (text.takeWhile Char.isDigit).length ≤
      text.length :=
    length_takeWhile_le Char.isDigit
  unfold step stepPlain stepStar stepSlash stepMarker stepDash
  grind [Step.consumed]

theorem taken_pos (lexer : Lexer) (head : Char) (tail : Text) :
    0 < lexer.taken (head :: tail) := by
  unfold taken step stepPlain stepStar stepSlash stepMarker stepDash
  grind [Step.consumed]

theorem length_drop_taken_lt (lexer : Lexer) (head : Char) (tail : Text) :
    ((head :: tail).drop (lexer.taken (head :: tail))).length <
      (head :: tail).length := by
  have progress := lexer.taken_pos head tail
  simp only [List.length_drop, List.length_cons]
  omega

end Lexer

end SqlDump
