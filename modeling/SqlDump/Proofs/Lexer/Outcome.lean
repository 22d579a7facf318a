import SqlDump.Guard

/-!
# What a step can do

The outcomes of a decided step, with the characters it takes and the state it
leaves.  Every fact about a single step is a case analysis over them.
-/

namespace SqlDump

namespace Lexer

/-- The place behind a character that is a step of its own. -/
def lexBehind (lexer : Lexer) (head : Char) : Lex :=
  match lexer.lex with
  | .quoted quote =>
      if head = quote then .code
      else if head = backslash ∧ quote ≠ backtick then .escaped quote
      else .quoted quote
  | .escaped quote => .quoted quote
  | .lineComment => if head = '\n' then .code else .lineComment
  | .code =>
      if lexer.inCode then
        if isQuote head then .quoted head
        else if head = '#' then .lineComment
        else .code
      else .code

/-- The state behind a character that is a step of its own. -/
def behind (lexer : Lexer) (head : Char) : Lexer :=
  { lexer with lex := lexer.lexBehind head }

/-- In code an opening marker stands in front of the text. -/
def Opens (lexer : Lexer) (head : Char) (tail : Text) : Prop :=
  lexer.lex = .code ∧ head = '/' ∧ tail.head? = some '*'

inductive Outcome (lexer : Lexer) : Text → Step → Lexer → Prop where
  | character (head : Char) (tail : Text) (noOpening : ¬lexer.Opens head tail) :
      Outcome lexer (head :: tail) (.skip 1) (lexer.behind head)
  | dashes (code : lexer.inCode = true) (tail : Text)
      (noDash : tail.head? ≠ some '-') :
      Outcome lexer ('-' :: '-' :: tail) (.skip 2) { lexer with
        lex := .lineComment }
  /-- The marker of a guard without a digit behind it. -/
  | marker (top : lexer.atTopLevel = true) (tail : Text)
      (noDigit : tail.takeWhile Char.isDigit = []) :
      Outcome lexer ('/' :: '*' :: '!' :: tail) (.skip 3) lexer
  | openGuard (top : lexer.atTopLevel = true) (digits tail : Text)
      (nonempty : digits ≠ [])
      (allDigits : (digits ++ tail).takeWhile Char.isDigit = digits) :
      Outcome lexer (guardMarker ++ (digits ++ tail))
        (.openGuard (guardMarker.length + digits.length)) lexer.enterGuard
  | openPlain (code : lexer.lex = .code) (tail : Text)
      (noMark : lexer.depth = 0 → tail.head? ≠ some '!') :
      Outcome lexer ('/' :: '*' :: tail) .openPlain lexer.openOne
  | close (inside : 0 < lexer.depth) (tail : Text) :
      Outcome lexer ('*' :: '/' :: tail) .close lexer.closeOne

variable {lexer : Lexer} {atEnd : Bool} {head : Char} {tail : Text}

theorem behind_of_lex (head : Char) {lex : Lex}
    (same : lexer.lexBehind head = lex) :
    lexer.behind head = { lexer with lex := lex } := by
  rw [behind, same]

theorem behind_of_keeps (same : lexer.lexBehind head = lexer.lex) :
    lexer.behind head = lexer := by
  rw [behind, same]

private theorem outcome_stepMarker (top : lexer.atTopLevel = true)
    (decided : (lexer.stepMarker atEnd tail).1 ≠ .needMore) :
    Outcome lexer ('/' :: '*' :: tail) (lexer.stepMarker atEnd tail).1
      (lexer.stepMarker atEnd tail).2 := by
  have code : lexer.lex = .code := by
    simp only [atTopLevel, Bool.and_eq_true, beq_iff_eq] at top
    exact top.2
  unfold stepMarker at decided ⊢
  split
  · split
    · exact .openPlain code [] (by simp)
    · next waiting => simp [waiting] at decided
  · next next rest =>
      split
      · next mark =>
          subst mark
          dsimp only at decided ⊢
          split
          · next waits => simp [waits] at decided
          · split
            · next noDigit => exact .marker top rest noDigit
            · next digits =>
                have parts : rest.takeWhile Char.isDigit ++
                    rest.dropWhile Char.isDigit = rest :=
                  List.takeWhile_append_dropWhile
                have opened :=
                  Outcome.openGuard top (rest.takeWhile Char.isDigit)
                  (rest.dropWhile Char.isDigit) digits (by rw [parts])
                rw [parts] at opened
                exact opened
      · next noMark => exact .openPlain code _ fun _ => by simpa using noMark

theorem behind_of_plain (lex : lexer.lex = .code ∨ lexer.lex = .lineComment)
    (noQuote : isQuote head = false) (noHash : head ≠ '#')
    (noBreak : head ≠ '\n' ∨ lexer.lex = .code) :
    lexer.behind head = lexer := by
  apply behind_of_keeps
  rcases lex with lex | lex
  · simp [lexBehind, lex, noQuote, noHash]
  · simp only [lex, reduceCtorEq, or_false] at noBreak
    simp [lexBehind, lex, noBreak]

theorem not_opens_of_ne (other : head ≠ '/') : ¬lexer.Opens head tail :=
  fun opens => other opens.2.1

theorem outcome_character (noOpening : ¬lexer.Opens head tail)
    (keeps : lexer.behind head = lexer) :
    Outcome lexer (head :: tail) (.skip 1) lexer := by
  have one : Outcome lexer (head :: tail) (.skip 1) (lexer.behind head) :=
    .character head tail noOpening
  rwa [keeps] at one

private theorem outcome_stepStar (inside : 0 < lexer.depth)
    (keeps : lexer.behind '*' = lexer)
    (decided : (lexer.stepStar atEnd tail).1 ≠ .needMore) :
    Outcome lexer ('*' :: tail) (lexer.stepStar atEnd tail).1
      (lexer.stepStar atEnd tail).2 := by
  unfold stepStar at decided ⊢
  split
  · split
    · exact outcome_character (not_opens_of_ne (by decide)) keeps
    · next waiting => simp [waiting] at decided
  · split
    · next slash => exact slash ▸ .close inside _
    · exact outcome_character (not_opens_of_ne (by decide)) keeps

private theorem outcome_stepSlash (code : lexer.lex = .code)
    (decided : (lexer.stepSlash atEnd tail).1 ≠ .needMore) :
    Outcome lexer ('/' :: tail) (lexer.stepSlash atEnd tail).1
      (lexer.stepSlash atEnd tail).2 := by
  have keeps : lexer.behind '/' = lexer :=
    behind_of_plain (.inl code) rfl (by decide) (.inr code)
  unfold stepSlash at decided ⊢
  split
  · split
    · exact outcome_character (fun opens => by simpa using opens.2.2) keeps
    · next waiting => simp [waiting] at decided
  · next next rest =>
      split
      · next star =>
          subst star
          dsimp only at decided
          rw [if_pos rfl] at decided
          split
          · next outside =>
              rw [if_pos outside] at decided
              exact outcome_stepMarker (by simp [atTopLevel, outside, code])
                decided
          · next inside =>
              exact .openPlain code rest fun outside => absurd outside inside
      · next noStar =>
          exact outcome_character (fun opens =>
            noStar (by simpa using opens.2.2)) keeps

private theorem outcome_stepDash (code : lexer.inCode = true)
    (keeps : lexer.behind '-' = lexer)
    (decided : (lexer.stepDash atEnd tail).1 ≠ .needMore) :
    Outcome lexer ('-' :: tail) (lexer.stepDash atEnd tail).1
      (lexer.stepDash atEnd tail).2 := by
  unfold stepDash at decided ⊢
  split
  · split
    · exact outcome_character (not_opens_of_ne (by decide)) keeps
    · next waiting => simp [waiting] at decided
  · next next rest =>
      split
      · next dash =>
          subst dash
          dsimp only at decided
          rw [if_pos rfl] at decided
          split
          · split
            · exact .dashes code [] (by simp)
            · next waiting => simp [waiting] at decided
          · split
            · next third later blank =>
                refine .dashes code _ fun dash => ?_
                simp only [List.head?_cons, Option.some.injEq] at dash
                subst dash
                simp at blank
            · exact outcome_character (not_opens_of_ne (by decide)) keeps
      · exact outcome_character (not_opens_of_ne (by decide)) keeps

theorem outcome_stepPlain (lex : lexer.lex = .code ∨ lexer.lex = .lineComment)
    (decided : (lexer.stepPlain atEnd head tail).1 ≠ .needMore) :
    Outcome lexer (head :: tail) (lexer.stepPlain atEnd head tail).1
      (lexer.stepPlain atEnd head tail).2 := by
  have inCode_lex (code : lexer.inCode = true) : lexer.lex = .code := by
    simp only [inCode, Bool.and_eq_true, beq_iff_eq] at code
    exact code.1
  unfold stepPlain at decided ⊢
  split
  · next star =>
      rw [if_pos star] at decided
      obtain ⟨rfl, inside⟩ := star
      exact outcome_stepStar inside
        (behind_of_plain lex rfl (by decide) (.inl (by decide))) decided
  · next noStar =>
      rw [if_neg noStar] at decided
      split
      · next slash =>
          rw [if_pos slash] at decided
          obtain ⟨rfl, noComment⟩ := slash
          exact outcome_stepSlash (lex.resolve_right noComment) decided
      · next noSlash =>
          rw [if_neg noSlash] at decided
          have noOpening : ¬lexer.Opens head tail := fun opens =>
            noSlash ⟨opens.2.1, by simp [opens.1]⟩
          split
          · next code =>
              rw [if_pos code] at decided
              have lexCode := inCode_lex code
              split
              · next quote =>
                  rw [← behind_of_lex head
                    (by simp [lexBehind, lexCode, code, quote])]
                  exact .character head tail noOpening
              · next noQuote =>
                  rw [if_neg noQuote] at decided
                  split
                  · next hash =>
                      subst hash
                      rw [← behind_of_lex '#'
                        (by simp [lexBehind, lexCode, code, noQuote])]
                      exact .character '#' tail (not_opens_of_ne (by decide))
                  · next noHash =>
                      rw [if_neg noHash] at decided
                      have keeps : lexer.behind head = lexer :=
                        behind_of_plain lex (by simpa using noQuote) noHash
                          (.inr lexCode)
                      split
                      · next dash =>
                          subst dash
                          exact outcome_stepDash code keeps decided
                      · exact outcome_character noOpening keeps
          · next noCode =>
              split
              · next lineEnd =>
                  obtain ⟨rfl, comment⟩ := lineEnd
                  rw [← behind_of_lex '\n' (by simp [lexBehind, comment])]
                  exact .character '\n' tail (not_opens_of_ne (by decide))
              · next noLineEnd =>
                  apply outcome_character noOpening
                  apply behind_of_keeps
                  rcases lex with lex | lex
                  · simp [lexBehind, lex, noCode]
                  · have noBreak : head ≠ '\n' := fun same =>
                      noLineEnd ⟨same, lex⟩
                    simp [lexBehind, lex, noBreak]

/-- Every decided step has one of the outcomes. -/
theorem outcome_step {input : Text}
    (decided : (lexer.step atEnd input).1 ≠ .needMore) :
    Outcome lexer input (lexer.step atEnd input).1
      (lexer.step atEnd input).2 := by
  cases input with
  | nil => simp [step] at decided
  | cons head tail =>
      cases lex : lexer.lex with
      | code =>
          simp only [step, lex] at decided ⊢
          exact outcome_stepPlain (.inl lex) decided
      | lineComment =>
          simp only [step, lex] at decided ⊢
          exact outcome_stepPlain (.inr lex) decided
      | quoted quote =>
          have one : lexer.step atEnd (head :: tail) =
              (.skip 1, lexer.behind head) := by
            simp only [step, lex, behind, lexBehind]
            split
            · rfl
            · split
              · rfl
              · rw [← lex]
          rw [one]
          exact .character head tail fun opens => by simpa [lex] using opens.1
      | escaped quote =>
          have one : lexer.step atEnd (head :: tail) =
              (.skip 1, lexer.behind head) := by
            simp only [step, lex, behind, lexBehind]
          rw [one]
          exact .character head tail fun opens => by simpa [lex] using opens.1

theorem outcome_of_step {input : Text} {taken : Step} {after : Lexer}
    (stepEq : lexer.step atEnd input = (taken, after))
    (decided : taken ≠ .needMore) :
    Outcome lexer input taken after := by
  have decidedStep : (lexer.step atEnd input).1 ≠ .needMore := by rwa [stepEq]
  have outcome := outcome_step decidedStep
  rwa [stepEq] at outcome

theorem Outcome.openGuard_spec {input : Text} {count : Nat} {after : Lexer}
    (outcome : Outcome lexer input (.openGuard count) after) :
    lexer.atTopLevel = true ∧ after = lexer.enterGuard ∧
      ∃ digits tail, input = guardMarker ++ (digits ++ tail) ∧ digits ≠ [] ∧
        (digits ++ tail).takeWhile Char.isDigit = digits ∧
        count = guardMarker.length + digits.length := by
  cases outcome with
  | openGuard top digits tail nonempty allDigits =>
      exact ⟨top, rfl, digits, tail, rfl, nonempty, allDigits, rfl⟩

theorem Outcome.openPlain_spec {input : Text} {after : Lexer}
    (outcome : Outcome lexer input .openPlain after) :
    lexer.lex = .code ∧ after = lexer.openOne := by
  cases outcome with
  | openPlain code tail => exact ⟨code, rfl⟩

theorem Outcome.close_spec {input : Text} {after : Lexer}
    (outcome : Outcome lexer input .close after) :
    0 < lexer.depth ∧ after = lexer.closeOne ∧ ∃ tail,
      input = closingMarker ++ tail := by
  cases outcome with
  | close inside tail => exact ⟨inside, rfl, tail, rfl⟩

end Lexer

end SqlDump
