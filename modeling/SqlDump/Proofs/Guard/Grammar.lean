import SqlDump.Proofs.Lexer.Comment
import SqlDump.Proofs.Lexer.Decision

/-!
# A grammar for the content of guards

What may stand between the digits of a guard and its closing marker, without a
lexer and its states: ordinary characters, literals, line comments and nested
comments.  The reader of an open guard takes every text of the grammar that
stands in front of a closing marker.
-/

namespace SqlDump

/-- The rest of a literal behind its opening quote, with the closing quote. -/
inductive Literal (quote : Char) : Text → Prop where
  | close : Literal quote [quote]
  | character {head : Char} {tail : Text} (noQuote : head ≠ quote)
      (noEscape : head = backslash → quote = backtick)
      (later : Literal quote tail) :
      Literal quote (head :: tail)
  | escape (escapes : quote ≠ backtick) (character : Char) {tail : Text}
      (later : Literal quote tail) :
      Literal quote (backslash :: character :: tail)

/-- The text of a line comment that has neither ended nor been cut off by a
closing marker. -/
structure LineText (text : Text) : Prop where
  noBreak : '\n' ∉ text
  noClosing : ¬closingMarker <:+: text

/-- What may stand in front of the closing marker of a guard. -/
inductive GuardContent : Text → Prop where
  | nil : GuardContent []
  | ordinary {head : Char} {tail : Text} (noQuote : isQuote head = false)
      (noLineComment : ¬BeginsLineComment (head :: (tail ++ closingMarker)))
      (noOpening : ¬commentMarker <+: head :: (tail ++ closingMarker))
      (noClosing : ¬closingMarker <+: head :: (tail ++ closingMarker))
      (later : GuardContent tail) : GuardContent (head :: tail)
  | literal {quote : Char} {body tail : Text} (opens : isQuote quote = true)
      (literal : Literal quote body) (later : GuardContent tail) :
      GuardContent (quote :: (body ++ tail))
  | comment {inner tail : Text} (comment : CommentText inner)
      (later : GuardContent tail) :
      GuardContent (commentMarker ++ (inner ++ tail))
  /-- A line comment that ends with its line. -/
  | line {text tail : Text} (begins : BeginsLineComment (text ++ '\n' :: tail))
      (line : LineText text) (later : GuardContent tail) :
      GuardContent (text ++ '\n' :: tail)
  /-- A line comment that the closing marker of the guard cuts off. -/
  | lastLine {text : Text} (begins : BeginsLineComment (text ++ closingMarker))
      (line : LineText text) : GuardContent text

theorem lineText_nil : LineText [] where
  noBreak := by simp
  noClosing := by simp [closingMarker]

theorem LineText.tail {head : Char} {tail : Text}
    (line : LineText (head :: tail)) :
    LineText tail where
  noBreak := fun member => line.noBreak (.tail head member)
  noClosing := fun found =>
    line.noClosing (found.trans (List.suffix_cons head tail).isInfix)

theorem LineText.cons {head : Char} {text : Text} (line : LineText text)
    (noBreak : head ≠ '\n') (noClosing : ¬closingMarker <+: head :: text) :
    LineText (head :: text) where
  noBreak := by
    intro member
    cases member with
    | head => exact noBreak rfl
    | tail _ later => exact line.noBreak later
  noClosing := by
    intro found
    rcases List.infix_cons_iff.mp found with front | behind
    · exact noClosing front
    · exact line.noClosing behind

namespace Lexer

/-- Inside a guard, with `depth` markers to be closed. -/
def within (depth : Nat) (lex : Lex) : Lexer :=
  ⟨depth, true, lex⟩

variable {lexer middle after : Lexer} {step : Step}
  {text inner rest piece later : Text}

private theorem guardContent?_of_step
    (stepEq : lexer.step false text = (step, after))
    (decided : step ≠ .needMore) (stays : ¬(step = .close ∧ after.depth = 0)) :
    lexer.guardContent? text =
      (after.guardContent? (text.drop step.consumed)).map fun (inner, rest) =>
        (text.take step.consumed ++ inner, rest) := by
  cases text with
  | nil =>
      have waits := congrArg Prod.fst stepEq
      exact absurd waits.symm decided
  | cons head tail =>
      rw [guardContent?, stepEq]
      dsimp only
      rw [if_neg decided, if_neg stays]

/-- The reader takes `piece` in front of `rest` and stays in the guard. -/
def Passes (lexer : Lexer) (piece rest : Text) (after : Lexer) : Prop :=
  lexer.guardContent? (piece ++ rest) =
    (after.guardContent? rest).map fun (inner, behind) =>
      (piece ++ inner, behind)

theorem Passes.trans (first : Passes lexer piece (later ++ rest) middle)
    (second : Passes middle later rest after) :
    Passes lexer (piece ++ later) rest after := by
  unfold Passes at first second ⊢
  rw [List.append_assoc, first, second, Option.map_map]
  congr 1
  funext content
  simp

theorem Passes.of_step
    (stepEq : lexer.step false (piece ++ rest) = (step, after))
    (decided : step ≠ .needMore) (taken : step.consumed = piece.length)
    (stays : step = .close → after.depth ≠ 0) :
    Passes lexer piece rest after := by
  unfold Passes
  rw [guardContent?_of_step stepEq decided fun closes =>
    stays closes.1 closes.2, taken, List.drop_left, List.take_left]

theorem passes_character {head : Char}
    (stepEq : lexer.step false (head :: rest) = (.skip 1, after)) :
    Passes lexer [head] rest after :=
  .of_step stepEq (by simp) rfl (by simp)

theorem ne_backslash_of_isQuote {quote : Char} (opens : isQuote quote = true) :
    backslash ≠ quote := by
  intro same
  subst same
  exact absurd opens (by decide)

theorem step_quote {quote : Char} (opens : isQuote quote = true) (tail : Text) :
    (within 1 .code).step false (quote :: tail) =
      (.skip 1, within 1 (.quoted quote)) := by
  have visible : quote = singleQuote ∨ quote = doubleQuote ∨
      quote = backtick := by
    simpa [isQuote, or_assoc] using opens
  rcases visible with rfl | rfl | rfl <;> rfl

private theorem passes_literal {quote : Char} {body : Text}
    (opens : isQuote quote = true) (literal : Literal quote body)
    (rest : Text) :
    Passes (within 1 (.quoted quote)) body rest (within 1 .code) := by
  induction literal with
  | close => exact passes_character (by simp [step, within])
  | @character head tail noQuote noEscape later ih =>
      have stays : ¬(head = backslash ∧ quote ≠ backtick) := fun escape =>
        escape.2 (noEscape escape.1)
      exact (passes_character (by simp [step, within, noQuote, stays])).trans ih
  | @escape escapes character tail later ih =>
      have first : Passes (within 1 (.quoted quote)) [backslash]
          (character :: tail ++ rest) (within 1 (.escaped quote)) :=
        passes_character
          (by simp [step, within, escapes, ne_backslash_of_isQuote opens])
      have second :
          Passes (within 1 (.escaped quote)) [character] (tail ++ rest)
          (within 1 (.quoted quote)) :=
            passes_character (by simp [step, within])
      exact first.trans (second.trans ih)

theorem inComment_within (depth : Nat) :
    InComment (within (depth + 2) .code) where
  code := rfl
  inside := Nat.succ_pos _
  outside := by simp [within, inCode]

theorem InComment.deep (comment : InComment lexer)
    (guarded : lexer.guarded = true) :
    lexer.depth ≠ 1 := by
  intro one
  have outside := comment.outside
  simp [inCode, comment.code, guarded, one] at outside

/-- A comment inside a guard is left to the inside of the guard. -/
theorem guarded_of_inComment {input : Text} (comment : InComment lexer)
    (guarded : lexer.guarded = true)
    (outcome : Outcome lexer input step after) :
    after.guarded = true ∧ (step = .close → after.depth ≠ 0) := by
  have deep := comment.deep guarded
  have inside := comment.inside
  cases outcome with
  | character head tail noOpening => exact ⟨guarded, by simp⟩
  | dashes code tail noDash => exact ⟨guarded, by simp⟩
  | marker top tail noDigit => exact ⟨guarded, by simp⟩
  | openGuard top digits tail nonempty allDigits => exact ⟨rfl, by simp⟩
  | openPlain code tail noMark => exact ⟨guarded, by simp⟩
  | close inside tail =>
      constructor
      · simp [closeOne, guarded, deep]
      · simp only [closeOne]
        omega

theorem Nested.passes (nested : Nested lexer piece rest after)
    (guarded : lexer.guarded = true) :
    Passes lexer piece rest after := by
  induction nested with
  | done lexer rest => simp [Passes]
  | step comment stepEq decided length behind ih =>
      obtain ⟨stillGuarded, deep⟩ :=
        guarded_of_inComment comment guarded (outcome_of_step stepEq decided)
      exact (Passes.of_step stepEq decided length deep).trans (ih stillGuarded)

private theorem passes_opening (depth : Nat) (rest : Text) :
    Passes (within (depth + 1) .code) commentMarker rest
      (within (depth + 2) .code) :=
  .of_step (step_opening rfl (Nat.succ_pos _) false rest) (by simp)
    rfl (by simp)

private theorem passes_comment {comment : Text} (valid : CommentText comment)
    (depth : Nat) (rest : Text) :
    Passes (within (depth + 2) .code) comment rest (within (depth + 1) .code) :=
  (nested_comment valid (inComment_within depth) rest).passes rfl

theorem step_inLine {head next : Char} {tail : Text} (noBreak : head ≠ '\n')
    (noClosing : ¬closingMarker <+: head :: next :: tail) :
    (within 1 .lineComment).step false (head :: next :: tail) =
      (.skip 1, within 1 .lineComment) := by
  simp only [closingMarker, List.cons_prefix_cons, List.nil_prefix, and_true]
    at noClosing
  by_cases star : head = '*'
  · subst star
    have noSlash : next ≠ '/' := fun slash => noClosing ⟨rfl, slash.symm⟩
    simp [step, stepPlain, stepStar, within, noSlash]
  · simp [step, stepPlain, within, inCode, star, noBreak]

theorem passes_line {text : Text} (line : LineText text) {next : Char}
    {tail : Text} (noSlash : next ≠ '/') :
    Passes (within 1 .lineComment) text (next :: tail)
      (within 1 .lineComment) := by
  induction text with
  | nil => simp [Passes]
  | cons head text ih =>
      have noBreak : head ≠ '\n' := fun same => line.noBreak (same ▸ .head text)
      have noClosing : ¬closingMarker <+: head :: (text ++ next :: tail) := by
        cases text with
        | nil => simp [closingMarker, noSlash.symm]
        | cons second text =>
            intro front
            apply line.noClosing
            apply List.IsPrefix.isInfix
            exact List.prefix_of_prefix_length_le front ⟨next :: tail, rfl⟩
              (by simp [closingMarker])
      have first : Passes (within 1 .lineComment) [head] (text ++ next :: tail)
          (within 1 .lineComment) := by
        cases text with
        | nil => exact passes_character (step_inLine noBreak noClosing)
        | cons second text =>
            exact passes_character (step_inLine noBreak noClosing)
      exact first.trans (ih line.tail)

/-- In front of two more characters a step inside a guard is decided. -/
theorem step_ordinary {head second third : Char} {tail : Text}
    (noQuote : isQuote head = false)
    (noLineComment : ¬BeginsLineComment (head :: second :: third :: tail))
    (noOpening : ¬commentMarker <+: head :: second :: third :: tail)
    (noClosing : ¬closingMarker <+: head :: second :: third :: tail) :
    (within 1 .code).step false (head :: second :: third :: tail) =
      (.skip 1, within 1 .code) := by
  simp only [commentMarker, closingMarker, List.cons_prefix_cons,
    List.nil_prefix, and_true]
    at noOpening noClosing
  have noHash : head ≠ '#' := fun hash =>
    noLineComment (.inl (by rw [hash]; rfl))
  by_cases star : head = '*'
  · subst star
    have noSlash : second ≠ '/' := fun slash => noClosing ⟨rfl, slash.symm⟩
    simp [step, stepPlain, stepStar, within, noSlash]
  · by_cases slash : head = '/'
    · subst slash
      have noStar : second ≠ '*' := fun star => noOpening ⟨rfl, star.symm⟩
      simp [step, stepPlain, stepSlash, within, noStar]
    · by_cases dash : head = '-'
      · subst dash
        by_cases dashes : second = '-'
        · subst dashes
          have noBlank :
          ¬(third = ' ' ∨ third = '\t' ∨ third = '\r' ∨ third = '\n') :=
            fun blank => noLineComment (.inr ⟨third, tail, rfl, blank⟩)
          simp [step, stepPlain, stepDash, within, inCode, noQuote, noBlank]
        · simp [step, stepPlain, stepDash, within, inCode, noQuote, dashes]
      · simp [step, stepPlain, within, inCode, star, slash, noQuote,
          noHash, dash]

private theorem passes_ordinary {head : Char} {tail : Text}
    (noQuote : isQuote head = false)
    (noLineComment : ¬BeginsLineComment (head :: (tail ++ closingMarker)))
    (noOpening : ¬commentMarker <+: head :: (tail ++ closingMarker))
    (noClosing : ¬closingMarker <+: head :: (tail ++ closingMarker))
    (rest : Text) :
    Passes (within 1 .code) [head] (tail ++ (closingMarker ++ rest))
      (within 1 .code) := by
  apply passes_character
  obtain ⟨second, third, behind, split⟩ :
      ∃ second third behind, tail ++ closingMarker = second :: third ::
        behind := by
    cases tail with
    | nil => exact ⟨_, _, _, rfl⟩
    | cons second tail =>
        cases tail with
        | nil => exact ⟨_, _, _, rfl⟩
        | cons third tail => exact ⟨_, _, _, rfl⟩
  rw [split] at noLineComment noOpening noClosing
  have decided := step_ordinary noQuote noLineComment noOpening noClosing
  rw [← List.append_assoc, split]
  have stands := step_append false rest (by rw [decided]; simp)
  rw [decided] at stands
  exact stands

theorem step_hash (rest : Text) :
    (within 1 .code).step false ('#' :: rest) =
      (.skip 1, within 1 .lineComment) := rfl

theorem step_dashes {blank : Char}
    (isBlank : blank = ' ' ∨ blank = '\t' ∨ blank = '\r' ∨ blank = '\n')
    (rest : Text) :
    (within 1 .code).step false ('-' :: '-' :: blank :: rest) =
      (.skip 2, within 1 .lineComment) := by
  rcases isBlank with rfl | rfl | rfl | rfl <;> rfl

/-- The first characters of a line comment are read, and the rest of its text is
left. -/
theorem passes_lineStart {text rest : Text}
    (begins : BeginsLineComment (text ++ rest)) (line : LineText text)
    (boundary : ∃ next tail, rest = next :: tail ∧ (next = '\n' ∨ next = '*')) :
    Passes (within 1 .code) text rest (within 1 .lineComment) := by
  obtain ⟨next, tail, rfl, endsLine⟩ := boundary
  have noSlash : next ≠ '/' := by
    rintro rfl
    simp at endsLine
  rcases begins with hash | ⟨blank, behind, dashes, isBlank⟩
  · cases text with
    | nil =>
        simp only [List.nil_append, List.head?_cons, Option.some.injEq] at hash
        subst hash
        simp at endsLine
    | cons head text =>
        simp only [List.cons_append, List.head?_cons, Option.some.injEq] at hash
        subst hash
        have first : Passes (within 1 .code) ['#'] (text ++ next :: tail)
            (within 1 .lineComment) := passes_character (step_hash _)
        exact first.trans (passes_line line.tail noSlash)
  · obtain ⟨text, rfl⟩ := dashes_of_append dashes (by
      rintro same
      obtain rfl : next = '-' := by simpa using same
      simp at endsLine)
    simp only [List.cons_append, List.cons.injEq, true_and] at dashes
    have first : Passes (within 1 .code) ['-', '-'] (text ++ next :: tail)
        (within 1 .lineComment) := by
      have stepEq :
          (within 1 .code).step false ('-' :: '-' :: (text ++ next :: tail)) =
            (.skip 2, within 1 .lineComment) := by
        rw [dashes]
        exact step_dashes isBlank behind
      exact .of_step stepEq (by simp) rfl (by simp)
    exact first.trans (passes_line line.tail.tail noSlash)

theorem guardContent?_closing (lex : Lex)
    (stops : lex = .code ∨ lex = .lineComment) (rest : Text) :
    (within 1 lex).guardContent? (closingMarker ++ rest) = some ([], rest) := by
  have stepEq : (within 1 lex).step false ('*' :: '/' :: rest) =
      (.close, (within 1 lex).closeOne) :=
        step_closing stops Nat.one_pos false rest
  change (within 1 lex).guardContent? ('*' :: '/' :: rest) = _
  rw [guardContent?, stepEq]
  simp [closeOne, within]

theorem Passes.complete (passes : Passes lexer piece rest after)
    (found : after.guardContent? rest = some (inner, later)) :
    lexer.guardContent? (piece ++ rest) = some (piece ++ inner, later) := by
  rw [passes, found]
  rfl

/-- The reader of an open guard finds every content in front of a closing
marker. -/
theorem guardContent?_complete (valid : GuardContent inner) (rest : Text) :
    (within 1 .code).guardContent? (inner ++ (closingMarker ++ rest)) =
      some (inner, rest) := by
  induction valid with
  | nil => exact guardContent?_closing .code (.inl rfl) rest
  | ordinary noQuote noLineComment noOpening noClosing later ih =>
      exact (passes_ordinary noQuote noLineComment noOpening noClosing
        rest).complete ih
  | @literal quote body tail opens literal later ih =>
      have first :
          Passes (within 1 .code) [quote]
            (body ++ (tail ++ (closingMarker ++ rest)))
          (within 1 (.quoted quote)) := passes_character (step_quote opens _)
      have passes :=
        first.trans
          (passes_literal opens literal (tail ++ (closingMarker ++ rest)))
      rw [List.cons_append, List.append_assoc]
      exact passes.complete ih
  | @comment inner tail comment later ih =>
      have passes :=
        (passes_opening 0 (inner ++ (tail ++ (closingMarker ++ rest)))).trans
        (passes_comment comment 0 (tail ++ (closingMarker ++ rest)))
      have found := passes.complete ih
      rwa [← List.append_assoc, ← List.append_assoc] at found ⊢
  | @line text tail begins line later ih =>
      have first :
          Passes (within 1 .code) text
            ('\n' :: (tail ++ (closingMarker ++ rest)))
          (within 1 .lineComment) := by
        apply passes_lineStart _ line ⟨_, _, rfl, .inl rfl⟩
        have longer := begins.append (closingMarker ++ rest)
        rwa [List.append_assoc] at longer
      have second : Passes (within 1 .lineComment) ['\n']
          (tail ++ (closingMarker ++ rest))
          (within 1 .code) :=
            passes_character (by simp [step, stepPlain, within, inCode])
      have found := (first.trans second).complete ih
      simpa using found
  | @lastLine text begins line =>
      have passes : Passes (within 1 .code) text (closingMarker ++ rest)
          (within 1 .lineComment) := by
        apply passes_lineStart _ line ⟨_, _, rfl, .inr rfl⟩
        have longer := begins.append rest
        rwa [List.append_assoc] at longer
      have found :=
        passes.complete (guardContent?_closing .lineComment (.inr rfl) rest)
      rwa [List.append_nil] at found

end Lexer

end SqlDump
