import SqlDump.Proofs.Offset.Progress
import SqlDump.Proofs.Segment.Cuts

/-!
# Nesting of comments

A lexer that was led through any buffers is outside every comment, or the
outermost one is a guard or a plain comment, and only at the level of code can a
literal or a line comment be open.  So the depth alone tells whether a scanner
is outside.
-/

namespace SqlDump

/-- The number of open comments behind a step. -/
def Step.nesting (taken : Step) (nested : Nat) : Nat :=
  match taken with
  | .openGuard _ => nested + 1
  | .openPlain => nested + 1
  | .close => nested - 1
  | .skip _ => nested
  | .needMore => nested

/-- What the counter gives below the bound is one more. -/
def DepthCounter.SoundTo (counter : DepthCounter) (bound : Nat) : Prop :=
  ∀ depth < bound, ∀ after, counter depth = .ok after → after = depth + 1

namespace Lexer

/-- The states that steps lead to.  Each step may look at a text of its own,
with or without the end in sight. -/
inductive Reachable : Lexer → Prop where
  | start : Reachable {}
  | step {lexer : Lexer} (reachable : Reachable lexer) (atEnd : Bool)
      (rest : Text) :
      Reachable (lexer.step atEnd rest).2

/-- The states that steps over the bytes of buffers lead to, with the number of
comments that are open and the largest number of them that were open at once. -/
inductive LedBy (counter : DepthCounter) : Nat → Nat → Lexer → Prop where
  | start : LedBy counter 0 0 {}
  | step {nested peak : Nat} {lexer after : Lexer} {octets : Text} {place : Nat}
      {atEnd : Bool} {taken : Step} (led : LedBy counter nested peak lexer)
      (stepEq : lexer.stepChecked counter octets place atEnd =
          .ok (taken, after)) :
      LedBy counter (taken.nesting nested) (max peak (taken.nesting nested))
        after

/-- Outside every comment, or directly inside a guard. -/
def AtCodeLevel (lexer : Lexer) : Prop :=
  lexer.depth = 0 ∨ (lexer.guarded = true ∧ lexer.depth = 1)

/-- Literals and line comments are open at the level of code only, and every
literal has a quote that can begin it. -/
structure Shallow (lexer : Lexer) : Prop where
  shallow : lexer.lex ≠ .code → lexer.AtCodeLevel
  quoting : lexer.Quoting
  escaping : ∀ quote, lexer.lex = .escaped quote → quote ≠ backtick

structure Regular (lexer : Lexer) : Prop extends lexer.Shallow where
  proper : lexer.Proper

variable {lexer after : Lexer} {input : Text} {taken : Step} {head : Char}

theorem shallow_of_code (code : lexer.lex = .code) : lexer.Shallow where
  shallow := fun opened => absurd code opened
  quoting := by simp [Quoting, code]
  escaping := by simp [code]

theorem regular_start : ({} : Lexer).Regular :=
  ⟨shallow_of_code rfl, proper_start⟩

theorem atCodeLevel_of_inCode (code : lexer.inCode = true) :
    lexer.AtCodeLevel := by
  simp only [inCode, Bool.and_eq_true, Bool.or_eq_true, beq_iff_eq] at code
  exact code.2

/-- What a character opens is opened in code, and what it leaves open was
open. -/
theorem Shallow.atCodeLevel_behind (shallow : lexer.Shallow)
    (opened : lexer.lexBehind head ≠ .code) : lexer.AtCodeLevel := by
  by_cases code : lexer.lex = .code
  · apply atCodeLevel_of_inCode
    by_contra noCode
    simp [lexBehind, code, noCode] at opened
  · exact shallow.shallow code

/-- Only a backslash in a literal escapes, and none in backticks. -/
theorem ne_backtick_of_lexBehind {quote : Char}
    (escapes : lexer.lexBehind head = .escaped quote) :
    quote ≠ backtick := by
  unfold lexBehind at escapes
  split at escapes
  · split at escapes
    · simp at escapes
    · split at escapes
      · next begins =>
          obtain rfl := Lex.escaped.inj escapes
          exact begins.2
      · simp at escapes
  · simp at escapes
  · split at escapes <;> simp at escapes
  · split at escapes
    · split at escapes
      · simp at escapes
      · split at escapes <;> simp at escapes
    · simp at escapes

theorem Outcome.shallow (outcome : Outcome lexer input taken after)
    (shallow : lexer.Shallow) :
    after.Shallow := by
  refine ⟨?_, outcome.quoting shallow.quoting, ?_⟩
  · intro opened
    cases outcome with
    | character head tail => exact shallow.atCodeLevel_behind opened
    | dashes code tail =>
        have level : lexer.AtCodeLevel := atCodeLevel_of_inCode code
        exact level
    | marker top tail => exact shallow.shallow opened
    | openGuard top digits tail nonempty allDigits => exact .inr ⟨rfl, rfl⟩
    | openPlain code tail => exact absurd code opened
    | close inside tail => exact absurd rfl opened
  · intro quote escaped
    cases outcome with
    | character head tail => exact ne_backtick_of_lexBehind escaped
    | dashes code tail => simp at escaped
    | marker top tail => exact shallow.escaping quote escaped
    | openGuard top digits tail nonempty allDigits =>
        exact shallow.escaping quote escaped
    | openPlain code tail => exact shallow.escaping quote escaped
    | close inside tail => simp [closeOne] at escaped

theorem Outcome.regular (outcome : Outcome lexer input taken after)
    (regular : lexer.Regular) :
    after.Regular :=
  ⟨outcome.shallow regular.toShallow, outcome.proper regular.proper⟩

theorem Reachable.regular (reachable : lexer.Reachable) : lexer.Regular := by
  induction reachable with
  | start => exact regular_start
  | @step lexer reachable atEnd rest ih =>
      by_cases waits : (lexer.step atEnd rest).1 = .needMore
      · rw [step_of_needMore waits]
        exact ih
      · exact (outcome_step waits).regular ih

theorem depth_pos_of_close {atEnd : Bool}
    (closes : (lexer.step atEnd input).1 = .close) :
    0 < lexer.depth := by
  have decided : (lexer.step atEnd input).1 ≠ .needMore := by simp [closes]
  have outcome := outcome_step decided
  rw [closes] at outcome
  exact outcome.close_spec.1

theorem Leaves.depth_pos {counter : DepthCounter} {atEnd : Bool}
    (leaves : Leaves counter lexer atEnd input .close after) :
    1 ≤ lexer.depth :=
  depth_pos_of_close leaves.taken_eq

theorem Outcome.depth_eq (outcome : Outcome lexer input taken after) :
    after.depth = taken.nesting lexer.depth := by
  cases outcome with
  | openGuard top digits tail nonempty allDigits =>
      simp only [atTopLevel, Bool.and_eq_true, beq_iff_eq] at top
      simp [Step.nesting, enterGuard, top.1]
  | character head tail => rfl
  | dashes code tail => rfl
  | marker top tail => rfl
  | openPlain code tail => rfl
  | close inside tail => rfl

/-- A counter has no say in what is open besides comments. -/
theorem LedBy.shallow {counter : DepthCounter} {nested peak : Nat}
    (led : LedBy counter nested peak lexer) : lexer.Shallow := by
  induction led with
  | start => exact regular_start.toShallow
  | @step nested peak lexer after octets place atEnd taken led stepEq ih =>
      have leaves := leaves_of_stepChecked stepEq
      by_cases waits : taken = .needMore
      · subst waits
        rw [leaves.eq_of_needMore]
        exact ih
      · have outcome := leaves.outcome waits
        by_cases opens : taken = .openPlain
        · subst opens
          obtain ⟨code, nextEq⟩ := outcome.openPlain_spec
          apply shallow_of_code
          rw [leaves.lex_eq, nextEq]
          exact code
        · rw [leaves.after_eq opens]
          exact outcome.shallow ih

/-- As long as the counter is right, it leads to no other states, and the depth
is the number of open comments. -/
theorem LedBy.reachable {counter : DepthCounter} {nested peak : Nat}
    (led : LedBy counter nested peak lexer) (sound : counter.SoundTo peak) :
    lexer.Reachable ∧ lexer.depth = nested := by
  induction led with
  | start => exact ⟨.start, rfl⟩
  | @step nested peak lexer after octets place atEnd taken led stepEq ih =>
      have soundBefore : counter.SoundTo peak := fun depth below =>
        sound depth (Nat.lt_of_lt_of_le below (Nat.le_max_left _ _))
      obtain ⟨reachable, depthEq⟩ := ih soundBefore
      have leaves := leaves_of_stepChecked stepEq
      have next := reachable.step atEnd (octets.drop place)
      by_cases waits : taken = .needMore
      · subst waits
        rw [leaves.eq_of_needMore]
        exact ⟨reachable, depthEq⟩
      · have outcome := leaves.outcome waits
        have afterEq : after = (lexer.step atEnd (octets.drop place)).2 := by
          by_cases opens : taken = .openPlain
          · subst opens
            obtain ⟨-, nextEq⟩ := outcome.openPlain_spec
            have below : lexer.depth < max peak (nested + 1) := by omega
            have counted :=
              sound lexer.depth below after.depth (leaves.depth_eq rfl)
            have lexEq := leaves.lex_eq
            have guardedEq := leaves.guarded_eq
            rw [nextEq] at lexEq guardedEq ⊢
            cases after
            rw [openOne, Lexer.mk.injEq]
            exact ⟨counted, guardedEq, lexEq⟩
          · exact leaves.after_eq opens
        rw [afterEq]
        exact ⟨next, depthEq ▸ outcome.depth_eq⟩

end Lexer

namespace Scanner

/-- The states of a scanner between its feeds, and behind the end of a
stream. -/
inductive Reachable : Scanner → Prop where
  | start : Reachable {}
  | feed {scanner : Scanner} (reachable : Reachable scanner) (chunk : Text) :
      Reachable (scanner.feed chunk).1
  | finish {scanner : Scanner} (reachable : Reachable scanner) :
      Reachable scanner.finish.1

variable {scanner : Scanner}

theorem release_lexer (scanner : Scanner) :
    scanner.release.1.lexer = scanner.lexer := by
  unfold release
  split <;> rfl

private theorem reachable_scan (atEnd : Bool) (rest : Text)
    (reachable : scanner.lexer.Reachable) :
    (scanner.scan atEnd rest).1.lexer.Reachable := by
  induction scanner, rest using scan_induction atEnd with
  | nil scanner =>
      rw [scan_nil, release_lexer]
      exact reachable
  | wait scanner head tail waits =>
      rw [scan_of_needMore scanner waits, release_lexer]
      exact reachable
  | step scanner head tail taken after stepEq decided ih =>
      rw [scan_of_decided scanner stepEq decided]
      apply ih
      rw [advance_lexer]
      have next := reachable.step atEnd (head :: tail)
      rwa [stepEq] at next

theorem Reachable.lexer (reachable : scanner.Reachable) :
    scanner.lexer.Reachable := by
  induction reachable with
  | start => exact .start
  | feed reachable chunk ih => exact reachable_scan false _ ih
  | finish reachable ih => exact .start

end Scanner

example :
    ({ depth := 1, guarded := true, lex := .lineComment } : Lexer).Reachable :=
  (Lexer.Reachable.start.step true "/*!1 a".toList).step true "# b".toList

end SqlDump
