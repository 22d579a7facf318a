import SqlDump.Lexer

/-!
# Decisions of the lexer

A step that does not ask for more input stands, whatever follows and whether or
not the end is in sight.
-/

namespace SqlDump

/-- Induction along a reader that changes its state and takes something off its
text. -/
theorem Text.drop_induction {State : Type} {motive : State → Text → Prop}
    (nil : ∀ state, motive state [])
    (cons : ∀ state head tail,
      (∀ after count, 0 < count → motive after ((head :: tail).drop count)) →
        motive state (head :: tail))
    (state : State) (text : Text) : motive state text := by
  induction size : text.length using Nat.strongRecOn
    generalizing state text with
  | _ size ih =>
      cases text with
      | nil => exact nil state
      | cons head tail =>
          apply cons
          intro after count positive
          apply ih _ ?_ after _ rfl
          rw [← size, List.length_drop, List.length_cons]
          omega

namespace Lexer

theorem takeWhile_append_of_length_ne {keeps : Char → Bool} {text : Text}
    (more : Text) (stops : (text.takeWhile keeps).length ≠ text.length) :
    (text ++ more).takeWhile keeps = text.takeWhile keeps := by
  rw [List.takeWhile_append, if_neg stops]

variable {lexer : Lexer} {rest : Text}

private theorem stepStar_append (atEnd : Bool) (more : Text)
    (decided : (lexer.stepStar false rest).1 ≠ .needMore) :
    lexer.stepStar atEnd (rest ++ more) = lexer.stepStar false rest := by
  cases rest with
  | nil => simp [stepStar] at decided
  | cons next tail => rfl

private theorem stepMarker_append (atEnd : Bool) (more : Text)
    (decided : (lexer.stepMarker false rest).1 ≠ .needMore) :
    lexer.stepMarker atEnd (rest ++ more) = lexer.stepMarker false rest := by
  cases rest with
  | nil => simp [stepMarker] at decided
  | cons next tail =>
      by_cases marker : next = '!'
      · have stops : (tail.takeWhile Char.isDigit).length ≠ tail.length := by
          intro allDigits
          simp [stepMarker, marker, allDigits] at decided
        have digitsEq := takeWhile_append_of_length_ne more stops
        have shorter := length_takeWhile_le Char.isDigit tail
        have longer : (tail.takeWhile Char.isDigit).length ≠
            (tail ++ more).length := by
          rw [List.length_append]
          omega
        simp only [List.cons_append, stepMarker, marker, if_true, digitsEq,
          longer, stops, false_and, if_false]
      · simp only [List.cons_append, stepMarker, if_neg marker]

private theorem stepSlash_append (atEnd : Bool) (more : Text)
    (decided : (lexer.stepSlash false rest).1 ≠ .needMore) :
    lexer.stepSlash atEnd (rest ++ more) = lexer.stepSlash false rest := by
  cases rest with
  | nil => simp [stepSlash] at decided
  | cons next tail =>
      simp only [stepSlash, List.cons_append] at decided ⊢
      by_cases star : next = '*'
      · by_cases outside : lexer.depth = 0
        · simp only [star, outside, if_true] at decided ⊢
          exact stepMarker_append atEnd more decided
        · simp only [star, outside, if_true, if_false]
      · simp only [star, if_false]

private theorem stepDash_append (atEnd : Bool) (more : Text)
    (decided : (lexer.stepDash false rest).1 ≠ .needMore) :
    lexer.stepDash atEnd (rest ++ more) = lexer.stepDash false rest := by
  cases rest with
  | nil => simp [stepDash] at decided
  | cons next tail =>
      cases tail with
      | nil =>
          by_cases dash : next = '-'
          · simp [stepDash, dash] at decided
          · simp [stepDash, dash]
      | cons third tail => rfl

theorem stepPlain_append {head : Char} (atEnd : Bool) (more : Text)
    (decided : (lexer.stepPlain false head rest).1 ≠ .needMore) :
    lexer.stepPlain atEnd head (rest ++ more) =
      lexer.stepPlain false head rest := by
  unfold stepPlain at decided ⊢
  split
  · next star =>
      rw [if_pos star] at decided
      exact stepStar_append atEnd more decided
  · next noStar =>
      rw [if_neg noStar] at decided
      split
      · next slash =>
          rw [if_pos slash] at decided
          exact stepSlash_append atEnd more decided
      · next noSlash =>
          rw [if_neg noSlash] at decided
          by_cases dash : lexer.inCode = true ∧ head = '-'
          · obtain ⟨code, rfl⟩ := dash
            have noQuote : isQuote '-' = false := rfl
            simp only [code, noQuote, Bool.false_eq_true, Char.reduceEq,
              if_true, if_false]
              at decided ⊢
            exact stepDash_append atEnd more decided
          · -- Without a dash in code nothing behind the head is read.
            grind

theorem step_append (atEnd : Bool) (more : Text)
    (decided : (lexer.step false rest).1 ≠ .needMore) :
    lexer.step atEnd (rest ++ more) = lexer.step false rest := by
  cases rest with
  | nil => simp [step] at decided
  | cons head tail =>
      cases lex : lexer.lex with
      | quoted quote => simp only [step, lex, List.cons_append]
      | escaped quote => simp only [step, lex, List.cons_append]
      | code =>
          simp only [step, lex, List.cons_append] at decided ⊢
          exact stepPlain_append atEnd more decided
      | lineComment =>
          simp only [step, lex, List.cons_append] at decided ⊢
          exact stepPlain_append atEnd more decided

theorem step_true_of_decided (decided : (lexer.step false rest).1 ≠ .needMore) :
    lexer.step true rest = lexer.step false rest := by
  have same := step_append true [] decided
  rwa [List.append_nil] at same

/-- A step that asks for more input leaves the state alone. -/
theorem step_of_needMore {atEnd : Bool}
    (waits : (lexer.step atEnd rest).1 = .needMore) :
    lexer.step atEnd rest = (.needMore, lexer) := by
  unfold step stepPlain stepStar stepSlash stepMarker stepDash at waits ⊢
  grind

/-- With the end in sight nothing is left open. -/
theorem step_true_ne_needMore (head : Char) (tail : Text) :
    (lexer.step true (head :: tail)).1 ≠ .needMore := by
  have progress := lexer.taken_pos head tail
  intro waits
  simp [taken, waits, Step.consumed] at progress

/-- Induction along the steps up to one that asks for more input. -/
theorem step_induction (atEnd : Bool) {motive : Lexer → Text → Prop}
    (nil : ∀ lexer, motive lexer [])
    (wait : ∀ lexer head tail, (lexer.step atEnd (head :: tail)).1 = .needMore →
      motive lexer (head :: tail))
    (step : ∀ lexer head tail step after,
      lexer.step atEnd (head :: tail) = (step, after) → step ≠ .needMore →
      motive after ((head :: tail).drop step.consumed) →
      motive lexer (head :: tail)) (lexer : Lexer) (text : Text) :
    motive lexer text := by
  induction lexer, text using Text.drop_induction with
  | nil lexer => exact nil lexer
  | cons lexer head tail ih =>
      by_cases waits : (lexer.step atEnd (head :: tail)).1 = .needMore
      · exact wait lexer head tail waits
      · have progress :=
          (lexer.step_eq_needMore_or_consumed_pos atEnd
            (head :: tail)).resolve_left waits
        exact step lexer head tail _ _ rfl waits (ih _ _ progress)

end Lexer

end SqlDump
