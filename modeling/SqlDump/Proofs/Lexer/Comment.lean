import SqlDump.Proofs.Lexer.Outcome

/-!
# A grammar for comments

Line comments and plain comments as texts, without a lexer and its states.
Inside a plain comment only the two markers count, and the lexer reads a text of
the grammar up to the end of the comment.
-/

namespace SqlDump

def commentMarker : Text := ['/', '*']

/-- A hash, or two dashes and a blank. -/
def BeginsLineComment (text : Text) : Prop :=
  text.head? = some '#' ∨
    ∃ blank tail, text = '-' :: '-' :: blank :: tail ∧
      (blank = ' ' ∨ blank = '\t' ∨ blank = '\r' ∨ blank = '\n')

/-- The rest of a plain comment behind its opening marker, with the closing
marker. -/
inductive CommentText : Text → Prop where
  | close : CommentText closingMarker
  | character {head : Char} {tail : Text}
      (noOpening : ¬commentMarker <+: head :: tail)
      (noClosing : ¬closingMarker <+: head :: tail) (later : CommentText tail) :
      CommentText (head :: tail)
  | nested {inner tail : Text} (comment : CommentText inner)
      (later : CommentText tail) :
      CommentText (commentMarker ++ (inner ++ tail))

theorem BeginsLineComment.append {text : Text} (begins : BeginsLineComment text)
    (more : Text) :
    BeginsLineComment (text ++ more) := by
  rcases begins with hash | ⟨blank, tail, rfl, isBlank⟩
  · left
    cases text with
    | nil => simp at hash
    | cons head tail => exact hash
  · exact .inr ⟨blank, tail ++ more, rfl, isBlank⟩

theorem dashes_of_append {text rest behind : Text}
    (split : text ++ rest = '-' :: '-' :: behind)
    (boundary : rest.head? ≠ some '-') : ∃ more, text = '-' :: '-' :: more := by
  match text with
  | [] =>
      have behindEq : rest = '-' :: '-' :: behind := split
      simp [behindEq] at boundary
  | [_] =>
      have behindEq : rest = '-' :: behind := (List.cons.inj split).2
      simp [behindEq] at boundary
  | first :: second :: more =>
      obtain ⟨rfl, behindEq⟩ := List.cons.inj split
      obtain ⟨rfl, -⟩ := List.cons.inj behindEq
      exact ⟨more, rfl⟩

theorem CommentText.ne_nil {text : Text} (comment : CommentText text) :
    text ≠ [] := by
  cases comment with
  | close => exact List.cons_ne_nil _ _
  | character noOpening noClosing later => exact List.cons_ne_nil _ _
  | nested inner later => exact List.cons_ne_nil _ _

namespace Lexer

variable {lexer middle after : Lexer} {taken : Step} {piece later rest : Text}

/-- Inside a plain comment, or in a comment inside a guard. -/
structure InComment (lexer : Lexer) : Prop where
  code : lexer.lex = .code
  inside : 0 < lexer.depth
  outside : lexer.inCode = false

theorem InComment.openOne (comment : InComment lexer) :
    InComment lexer.openOne where
  code := comment.code
  inside := Nat.succ_pos _
  outside := by
    have inside := comment.inside
    simp only [Lexer.openOne, inCode, Bool.and_eq_false_iff,
      Bool.or_eq_false_iff]
    right
    constructor
    · simp
    · right
      simp only [beq_eq_false_iff_ne, ne_eq]
      omega

theorem InComment.closeOne_openOne (comment : InComment lexer) :
    lexer.openOne.closeOne = lexer := by
  have inside := comment.inside
  have deeper : lexer.depth + 1 ≠ 1 := by omega
  cases lexer with
  | mk depth guarded lex =>
      have code : lex = .code := comment.code
      simp [Lexer.openOne, closeOne, code, bne_iff_ne.mpr deeper]

theorem step_closing (lex : lexer.lex = .code ∨ lexer.lex = .lineComment)
    (inside : 0 < lexer.depth) (atEnd : Bool) (rest : Text) :
    lexer.step atEnd (closingMarker ++ rest) = (.close, lexer.closeOne) := by
  rcases lex with lex | lex <;> simp [step, stepPlain, stepStar, closingMarker,
    lex, inside]

theorem step_opening (code : lexer.lex = .code) (inside : 0 < lexer.depth)
    (atEnd : Bool) (rest : Text) :
    lexer.step atEnd (commentMarker ++ rest) = (.openPlain, lexer.openOne) := by
  simp [step, stepPlain, stepSlash, commentMarker, code, Nat.ne_of_gt inside]

theorem step_inComment (comment : InComment lexer) (atEnd : Bool)
    {head next : Char} {tail : Text}
    (noOpening : ¬commentMarker <+: head :: next :: tail)
    (noClosing : ¬closingMarker <+: head :: next :: tail) :
    lexer.step atEnd (head :: next :: tail) = (.skip 1, lexer) := by
  simp only [commentMarker, closingMarker, List.cons_prefix_cons,
    List.nil_prefix, and_true]
    at noOpening noClosing
  by_cases star : head = '*'
  · subst star
    have noSlash : next ≠ '/' := fun slash => noClosing ⟨rfl, slash.symm⟩
    simp [step, stepPlain, stepStar, comment.code, comment.inside, noSlash]
  · by_cases slash : head = '/'
    · subst slash
      have noStar : next ≠ '*' := fun star => noOpening ⟨rfl, star.symm⟩
      simp [step, stepPlain, stepSlash, comment.code, noStar]
    · simp [step, stepPlain, comment.code, comment.outside, star, slash]

/-- The steps that take `piece` in front of `rest`, each from inside a
comment. -/
inductive Nested : Lexer → Text → Text → Lexer → Prop where
  | done (lexer : Lexer) (rest : Text) : Nested lexer [] rest lexer
  | step {lexer middle after : Lexer} {taken : Step} {piece later rest : Text}
      (comment : InComment lexer)
      (stepEq : lexer.step false (piece ++ (later ++ rest)) = (taken, middle))
      (decided : taken ≠ .needMore) (length : taken.consumed = piece.length)
      (behind : Nested middle later rest after) :
      Nested lexer (piece ++ later) rest after

theorem Nested.trans (first : Nested lexer piece (later ++ rest) middle)
    (second : Nested middle later rest after) :
    Nested lexer (piece ++ later) rest after := by
  generalize both : later ++ rest = behind at first
  induction first with
  | done lexer behind => exact second
  | step comment stepEq decided length following ih =>
      subst both
      rw [List.append_assoc]
      rw [← List.append_assoc] at stepEq
      exact .step comment (by simpa using stepEq) decided length (ih second rfl)

theorem Nested.one (comment : InComment lexer)
    (stepEq : lexer.step false (piece ++ rest) = (taken, after))
    (decided : taken ≠ .needMore) (length : taken.consumed = piece.length) :
    Nested lexer piece rest after := by
  have nested : Nested lexer (piece ++ []) rest after :=
    .step comment stepEq decided length (.done after rest)
  rwa [List.append_nil] at nested

theorem nested_comment {text : Text} (valid : CommentText text)
    (comment : InComment lexer) (rest : Text) :
    Nested lexer text rest lexer.closeOne := by
  induction valid generalizing lexer rest with
  | close =>
      exact .one comment (step_closing (.inl comment.code) comment.inside false
        rest) (by simp) rfl
  | @character head tail noOpening noClosing later ih =>
      cases tail with
      | nil => exact absurd rfl later.ne_nil
      | cons next tail =>
          have marker (opening : Text) (two : opening.length = 2)
              (front : opening <+: head :: next :: (tail ++ rest)) :
              opening <+: head :: next :: tail :=
            List.prefix_of_prefix_length_le front ⟨rest, rfl⟩ (by simp [two])
          have stepEq := step_inComment comment false
            (fun front => noOpening (marker _ rfl front))
            fun front => noClosing (marker _ rfl front)
          have first : Nested lexer [head] (next :: tail ++ rest) lexer :=
            .one comment stepEq (by simp) rfl
          exact first.trans (ih comment rest)
  | @nested inner tail valid later innerIh ih =>
      have first : Nested lexer commentMarker ((inner ++ tail) ++ rest)
          lexer.openOne :=
        .one comment (step_opening comment.code comment.inside false _)
          (by simp) rfl
      have second := innerIh comment.openOne (tail ++ rest)
      rw [comment.closeOne_openOne] at second
      exact first.trans (second.trans (ih comment rest))

end Lexer

end SqlDump
