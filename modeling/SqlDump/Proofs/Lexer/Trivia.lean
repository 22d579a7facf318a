import SqlDump.Proofs.Lexer.Comment
import SqlDump.Proofs.Lexer.Reading

/-!
# A grammar for trivia

Blanks, line comments and plain comments, without a lexer and its states.  A
text of the grammar can stand in front of any other without a change to what is
found behind it.
-/

namespace SqlDump

/-- What may stand in front of a token. -/
inductive Trivia : Text → Prop where
  | nil : Trivia []
  | blank {head : Char} {tail : Text} (blank : isAsciiBlank head = true)
      (later : Trivia tail) :
      Trivia (head :: tail)
  | line {text tail : Text} (begins : BeginsLineComment (text ++ ['\n']))
      (noBreak : '\n' ∉ text) (later : Trivia tail) :
      Trivia (text ++ '\n' :: tail)
  | comment {inner tail : Text} (noMark : inner.head? ≠ some '!')
      (comment : CommentText inner) (later : Trivia tail) :
      Trivia (commentMarker ++ (inner ++ tail))

theorem trivia_of_blanks {text : Text}
    (blanks : ∀ character ∈ text, isAsciiBlank character = true) :
    Trivia text := by
  induction text with
  | nil => exact .nil
  | cons head tail ih =>
      apply Trivia.blank (blanks head (.head tail))
      exact ih fun character member => blanks character (.tail head member)

theorem split_last {front tail text : Text} {last : Char}
    (same : text ++ [last] = front ++ tail) :
    tail = [] ∨ ∃ shorter, tail = shorter ++ [last] ∧
      text = front ++ shorter := by
  rcases List.eq_nil_or_concat tail with rfl | ⟨shorter, final, rfl⟩
  · exact .inl rfl
  · rw [List.concat_eq_append, ← List.append_assoc] at same
    obtain ⟨textEq, lastEq⟩ := List.append_inj' same rfl
    obtain rfl : last = final := by simpa using lastEq
    exact .inr ⟨shorter, List.concat_eq_append, textEq⟩

theorem CommentText.last {text front : Text} {last : Char}
    (comment : CommentText text) (whole : front ++ [last] = text) :
    last = '/' := by
  induction comment generalizing front with
  | close =>
      have same := congrArg List.getLast? whole
      simpa [closingMarker] using same
  | @character head tail noOpening noClosing later ih =>
      have split : front ++ [last] = [head] ++ tail := whole
      rcases split_last split with empty | ⟨shorter, rfl, -⟩
      · exact absurd empty later.ne_nil
      · exact ih rfl
  | @nested inner tail comment later innerIh ih =>
      rw [← List.append_assoc] at whole
      rcases split_last whole with empty | ⟨shorter, rfl, -⟩
      · exact absurd empty later.ne_nil
      · exact ih rfl

/-- Padding at the end of trivia is not part of a comment. -/
theorem Trivia.of_append {text : Text} {last : Char}
    (trivia : Trivia (text ++ [last])) (padding : isPadding last = true) :
    Trivia text := by
  generalize whole : text ++ [last] = front at trivia
  induction trivia generalizing text with
  | nil => simp at whole
  | @blank head tail blank later ih =>
      have split : text ++ [last] = [head] ++ tail := whole
      rcases split_last split with rfl | ⟨shorter, rfl, rfl⟩
      · obtain rfl : text = [] := by simpa using congrArg List.length whole
        exact .nil
      · exact .blank blank (ih rfl)
  | @line line tail begins noBreak later ih =>
      have split : text ++ [last] = (line ++ ['\n']) ++ tail := by
        simpa using whole
      rcases split_last split with rfl | ⟨shorter, rfl, rfl⟩
      · obtain ⟨-, same⟩ := List.append_inj' whole rfl
        obtain rfl : last = '\n' := by simpa using same
        exact absurd padding (by decide)
      · have shorter := Trivia.line begins noBreak (ih rfl)
        simpa using shorter
  | @comment inner tail noMark comment later ih =>
      have split : text ++ [last] = (commentMarker ++ inner) ++ tail := by
        simpa using whole
      rcases split_last split with rfl | ⟨shorter, rfl, rfl⟩
      · rw [List.append_nil] at whole
        rcases split_last whole with empty | ⟨shorter, innerEq, -⟩
        · exact absurd empty comment.ne_nil
        · obtain rfl := comment.last innerEq.symm
          exact absurd padding (by decide)
      · have shorter := Trivia.comment noMark comment (ih rfl)
        simpa using shorter

namespace Lexer

variable {lexer middle after : Lexer} {taken : Step}
  {piece later rest text : Text}

/-- The reader of trivia takes `piece` in front of `rest`. -/
def Skips (lexer : Lexer) (piece rest : Text) (after : Lexer) : Prop :=
  lexer.triviaLength (piece ++ rest) = piece.length + after.triviaLength rest

theorem Skips.trans (first : Skips lexer piece (later ++ rest) middle)
    (second : Skips middle later rest after) :
    Skips lexer (piece ++ later) rest after := by
  unfold Skips at first second ⊢
  rw [List.append_assoc, first, second, List.length_append, Nat.add_assoc]

private theorem skips_blank {head : Char} (blank : isAsciiBlank head = true)
    (rest : Text) :
    Skips {} [head] rest {} := by
  simp [Skips, triviaLength, blank, atTopLevel]

theorem Skips.of_step (nonempty : piece ≠ [])
    (stepEq : lexer.step true (piece ++ rest) = (taken, after))
    (length : taken.consumed = piece.length)
    (goesOn : lexer.atTopLevel = true →
      (∀ head ∈ piece.head?,
      isAsciiBlank head = false) ∧ beginsComment (taken, after) = true) :
    Skips lexer piece rest after := by
  cases piece with
  | nil => exact absurd rfl nonempty
  | cons head tail =>
      rw [List.cons_append] at stepEq
      rw [Skips, List.cons_append, triviaLength]
      cases top : lexer.atTopLevel with
      | false =>
          simp only [Lexer.taken, next, stepEq, length, Bool.false_and,
            Bool.false_eq_true, if_false]
          rw [← List.cons_append, List.drop_left]
      | true =>
          obtain ⟨noBlank, comment⟩ := goesOn top
          have visible : isAsciiBlank head = false := noBlank head rfl
          simp only [Lexer.taken, next, stepEq, length, visible, comment,
            Bool.true_and, Bool.false_eq_true, if_false, Bool.not_true]
          rw [← List.cons_append, List.drop_left]

theorem Nested.skips (nested : Nested lexer piece rest after) :
    Skips lexer piece rest after := by
  induction nested with
  | done lexer rest => simp [Skips]
  | @step lexer middle after taken piece later rest comment stepEq decided
      length behind ih =>
      have decidedStep : (lexer.step false (piece ++ (later ++ rest))).1 ≠
          .needMore := by
        rwa [stepEq]
      have progress :=
        lexer.step_eq_needMore_or_consumed_pos false (piece ++ (later ++ rest))
      rw [stepEq] at progress
      have nonempty : piece ≠ [] := by
        intro empty
        subst empty
        rw [length] at progress
        exact absurd (progress.resolve_left decided) (Nat.lt_irrefl 0)
      have inside : lexer.atTopLevel = false := by
        simp [atTopLevel, Nat.ne_of_gt comment.inside]
      have first : Skips lexer piece (later ++ rest) middle := by
        apply Skips.of_step nonempty
          ((step_true_of_decided decidedStep).trans stepEq) length
        intro top
        rw [inside] at top
        exact absurd top Bool.false_ne_true
      exact first.trans ih

def inLine : Lexer :=
  ⟨0, false, .lineComment⟩

theorem skips_line (noBreak : '\n' ∉ piece) (rest : Text) :
    Skips inLine piece rest inLine := by
  induction piece with
  | nil => simp [Skips]
  | cons head tail ih =>
      have notBreak : head ≠ '\n' := fun same => noBreak (same ▸ .head tail)
      have first : Skips inLine [head] (tail ++ rest) inLine := by
        have stepEq : inLine.step true ([head] ++ (tail ++ rest)) =
            (.skip 1, inLine) := by
          simp [step, stepPlain, inLine, inCode, notBreak]
        exact .of_step (by simp) stepEq rfl (by simp [atTopLevel, inLine])
      exact first.trans (ih fun member => noBreak (.tail head member))

private theorem skips_break (rest : Text) : Skips inLine ['\n'] rest {} := by
  have stepEq : inLine.step true (['\n'] ++ rest) = (.skip 1, {}) := by
    simp [step, stepPlain, inLine, inCode]
  exact .of_step (by simp) stepEq rfl (by simp [atTopLevel, inLine])

theorem skips_lineStart (begins : BeginsLineComment (piece ++ rest))
    (noBreak : '\n' ∉ piece) (ends : rest = [] ∨ ∃ tail, rest = '\n' :: tail) :
    Skips {} piece rest inLine := by
  rcases begins with hash | ⟨blank, behind, dashes, isBlank⟩
  · cases piece with
    | nil =>
        rcases ends with rfl | ⟨tail, rfl⟩ <;> simp at hash
    | cons head piece =>
        obtain rfl : head = '#' := by simpa using hash
        have first : Skips {} ['#'] (piece ++ rest) inLine :=
          .of_step (by simp) rfl rfl fun _ => ⟨by simp [isAsciiBlank], rfl⟩
        exact first.trans
          (skips_line (fun member => noBreak (.tail _ member)) rest)
  · obtain ⟨piece, rfl⟩ := dashes_of_append dashes (by
      rcases ends with rfl | ⟨tail, rfl⟩ <;> simp)
    have stepEq : ({} : Lexer).step true (['-', '-'] ++ (piece ++ rest)) =
        (.skip 2, inLine) := by
      change ({} : Lexer).step true ('-' :: '-' :: piece ++ rest) = _
      rw [dashes]
      rcases isBlank with rfl | rfl | rfl | rfl <;> rfl
    have first : Skips {} ['-', '-'] (piece ++ rest) inLine :=
      .of_step (by simp) stepEq rfl fun _ => ⟨by simp [isAsciiBlank], rfl⟩
    exact first.trans
      (skips_line (fun member => noBreak (.tail _ (.tail _ member))) rest)

theorem skips_opening (noMark : rest.head? ≠ some '!') :
    Skips {} commentMarker rest ({} : Lexer).openOne := by
  have stepEq : ({} : Lexer).step true (commentMarker ++ rest) =
      (.openPlain, ({} : Lexer).openOne) := by
    cases rest with
    | nil => rfl
    | cons next tail =>
        have plain : next ≠ '!' := by simpa using noMark
        simp [step, stepPlain, stepSlash, stepMarker, commentMarker, plain]
  exact .of_step (by simp [commentMarker]) stepEq rfl fun _ =>
    ⟨by simp [commentMarker, isAsciiBlank], rfl⟩

theorem inComment_openOne : InComment ({} : Lexer).openOne where
  code := rfl
  inside := Nat.one_pos
  outside := rfl

/-- Trivia are skipped, whatever follows. -/
theorem skips_trivia (trivia : Trivia text) (rest : Text) :
    Skips {} text rest {} := by
  induction trivia with
  | nil => simp [Skips]
  | blank blank later ih => exact (skips_blank blank _).trans ih
  | @line text tail begins noBreak later ih =>
      have longer : BeginsLineComment (text ++ ('\n' :: (tail ++ rest))) := by
        simpa using begins.append (tail ++ rest)
      have first : Skips {} text (['\n'] ++ tail ++ rest) inLine :=
        skips_lineStart longer noBreak (.inr ⟨_, rfl⟩)
      exact first.trans ((skips_break (tail ++ rest)).trans ih)
  | @comment inner tail noMark comment later ih =>
      have opening : Skips {} commentMarker (inner ++ tail ++ rest)
          ({} : Lexer).openOne := by
        apply skips_opening
        cases inner with
        | nil => exact absurd rfl comment.ne_nil
        | cons head inner => exact noMark
      have body :=
        (nested_comment comment inComment_openOne (tail ++ rest)).skips
      exact opening.trans (body.trans ih)

end Lexer

theorem statementOffset_append {text : Text} (trivia : Trivia text)
    (rest : Text) :
    statementOffset (text ++ rest) = text.length + statementOffset rest :=
  Lexer.skips_trivia trivia rest

namespace Lexer

variable {lexer : Lexer} {text : Text}

private theorem triviaLength_of_one (comment : InComment lexer) (head : Char) :
    lexer.triviaLength [head] = 1 := by
  have top : lexer.atTopLevel = false := by
    simp [atTopLevel, Nat.ne_of_gt comment.inside]
  have positive := lexer.taken_pos head []
  have fits : lexer.taken [head] ≤ 1 := lexer.consumed_step_le true [head]
  have one : lexer.taken [head] = 1 := by omega
  rw [triviaLength, top, one]
  simp [triviaLength]

theorem comment_or_open {lexer : Lexer} (comment : InComment lexer)
    (text : Text) :
    (∃ inner tail, text = inner ++ tail ∧ CommentText inner) ∨
      lexer.triviaLength text = text.length := by
  match text with
  | [] => exact .inr (by simp [triviaLength])
  | [head] => exact .inr (triviaLength_of_one comment head)
  | head :: next :: tail =>
      by_cases closes : closingMarker <+: head :: next :: tail
      · obtain ⟨behind, split⟩ := closes
        exact .inl ⟨closingMarker, behind, split.symm, .close⟩
      by_cases opens : commentMarker <+: head :: next :: tail
      · obtain ⟨behind, split⟩ := opens
        have opening : Skips lexer commentMarker behind lexer.openOne :=
          (Nested.one comment
            (step_opening comment.code comment.inside false behind)
            (by simp) rfl).skips
        rw [← split]
        rcases comment_or_open comment.openOne behind with ⟨inner, later, rfl,
          valid⟩ | all
        · have body := (nested_comment valid comment.openOne later).skips
          rw [comment.closeOne_openOne] at body
          have whole := opening.trans body
          rcases comment_or_open comment later with ⟨rest, tail, rfl,
            validRest⟩ | all
          · exact .inl ⟨_, tail, by simp, .nested valid validRest⟩
          · right
            rw [← List.append_assoc, whole, all]
            simp only [List.length_append]
        · right
          rw [opening, all, List.length_append]
      · have first : Skips lexer [head] (next :: tail) lexer :=
          (Nested.one comment (step_inComment comment false opens closes)
            (by simp) rfl).skips
        rcases comment_or_open comment (next :: tail) with ⟨inner, later, split,
          valid⟩ | all
        · left
          have shorter : head :: inner <+: head :: next :: tail :=
            ⟨later, by rw [split]; rfl⟩
          exact ⟨head :: inner, later, by rw [split]; rfl,
            .character (fun front => opens (front.trans shorter))
              (fun front => closes (front.trans shorter)) valid⟩
        · right
          have whole := first
          rw [Skips, all] at whole
          simpa [Nat.add_comm] using whole
termination_by text.length
decreasing_by
  · rw [← split]
    simp only [commentMarker, List.length_append, List.length_cons]
    omega
  · rw [← split]
    simp only [commentMarker, List.length_append, List.length_cons]
    omega
  · simp

/-- What begins a comment at the end of input. -/
theorem beginsComment_cases {head : Char} {tail : Text}
    (comment : beginsComment (({} : Lexer).step true (head :: tail)) = true) :
    BeginsLineComment (head :: tail) ∨ head :: tail = ['-', '-'] ∨
      ∃ behind, head :: tail = commentMarker ++ behind ∧
      behind.head? ≠ some '!' := by
  have outcome := outcome_next ({} : Lexer) (List.cons_ne_nil head tail)
  have nextEq : ({} : Lexer).step true (head :: tail) =
      ((({} : Lexer).step true (head :: tail)).1,
        ({} : Lexer).next (head :: tail)) := rfl
  rw [nextEq] at comment
  generalize (({} : Lexer).step true (head :: tail)).1 = taken
    at comment outcome nextEq
  generalize ({} : Lexer).next (head :: tail) = after at comment outcome nextEq
  generalize head :: tail = input at outcome nextEq ⊢
  cases outcome with
  | character first rest noOpening =>
      left
      left
      have line : ({} : Lexer).lexBehind first = .lineComment := by
        simpa [beginsComment, behind] using comment
      by_cases hash : first = '#'
      · rw [hash]
        rfl
      · cases quote : isQuote first <;> simp [lexBehind, inCode, hash, quote]
          at line
  | dashes code rest noDash =>
      cases rest with
      | nil => exact .inr (.inl rfl)
      | cons third rest =>
          left
          right
          by_cases blank : third = ' ' ∨ third = '\t' ∨ third = '\r' ∨
            third = '\n'
          · exact ⟨third, rest, rfl, blank⟩
          · simp [step, stepPlain, stepDash, inCode, isQuote, singleQuote,
              doubleQuote, backtick, blank] at nextEq
  | marker top rest noDigit => simp [beginsComment] at comment
  | openGuard top digits rest nonempty allDigits =>
      simp [beginsComment] at comment
  | openPlain code rest noMark => exact .inr (.inr ⟨rest, rfl, noMark rfl⟩)
  | close inside rest => simp [beginsComment] at comment

end Lexer

theorem BeginsLineComment.of_break {text tail : Text}
    (begins : BeginsLineComment (text ++ '\n' :: tail)) :
    BeginsLineComment (text ++ ['\n']) := by
  rcases begins with hash | ⟨blank, behind, dashes, isBlank⟩
  · left
    cases text with
    | nil => simp at hash
    | cons head text => exact hash
  · obtain ⟨text, rfl⟩ := dashes_of_append dashes (by simp)
    right
    cases text with
    | nil => exact ⟨'\n', [], rfl, by simp⟩
    | cons third text =>
        obtain rfl : third = blank := by
          simp only [List.cons_append, List.cons.injEq, true_and] at dashes
          exact dashes.1
        exact ⟨third, text ++ ['\n'], rfl, isBlank⟩

theorem Trivia.append {first second : Text} (front : Trivia first)
    (behind : Trivia second) :
    Trivia (first ++ second) := by
  induction front with
  | nil => exact behind
  | blank blank later ih => exact .blank blank ih
  | line begins noBreak later ih =>
      have whole := Trivia.line begins noBreak ih
      simpa using whole
  | comment noMark comment later ih =>
      have whole := Trivia.comment noMark comment ih
      simpa using whole

theorem statementOffset_of_skips {text : Text} {after : Lexer}
    (all : Lexer.Skips {} text [] after) :
    statementOffset text = text.length := by
  have nothingMore : after.triviaLength [] = 0 := by rw [Lexer.triviaLength]
  rwa [Lexer.Skips, List.append_nil, nothingMore] at all

end SqlDump
