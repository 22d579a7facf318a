import SqlDump.Proofs.Lexer.Decision
import SqlDump.Proofs.Lexer.Outcome

/-!
# Reading with the end in sight

A judgment for the steps that lead from one place of a text to another.  The
characters behind the second place are part of the judgment, because they can
decide the last step before it.
-/

namespace SqlDump

namespace Lexer

/-- From `lexer` in front of `input`, the steps lead to `after` in front of
`rest`. -/
inductive Reads : Lexer → Text → List Step → Lexer → Text → Prop where
  | done (lexer : Lexer) (rest : Text) : Reads lexer rest [] lexer rest
  | step {lexer after : Lexer} {input rest : Text} {steps : List Step}
      (nonempty : input ≠ [])
      (behind : Reads (lexer.next input) (input.drop (lexer.taken input))
          steps after rest) :
      Reads lexer input ((lexer.step true input).1 :: steps) after rest

namespace Reads

variable {lexer middle after : Lexer} {input between rest : Text}
  {steps later : List Step}

theorem trans (first : Reads lexer input steps middle between)
    (second : Reads middle between later after rest) :
    Reads lexer input (steps ++ later) after rest := by
  induction first with
  | done lexer rest => exact second
  | step nonempty behind ih => exact .step nonempty (ih second)

theorem one (lexer : Lexer) {input : Text} (nonempty : input ≠ []) :
    Reads lexer input [(lexer.step true input).1] (lexer.next input)
      (input.drop (lexer.taken input)) :=
  .step nonempty (.done _ _)

theorem suffix (reads : Reads lexer input steps after rest) :
    ∃ piece, input = piece ++ rest := by
  induction reads with
  | done lexer rest => exact ⟨[], rfl⟩
  | @step lexer after input rest steps nonempty behind ih =>
      obtain ⟨piece, dropped⟩ := ih
      refine ⟨input.take (lexer.taken input) ++ piece, ?_⟩
      rw [List.append_assoc, ← dropped, List.take_append_drop]

end Reads

/-- A guard is open only inside a comment. -/
def Proper (lexer : Lexer) : Prop :=
  lexer.guarded = true → 0 < lexer.depth

theorem proper_start : ({} : Lexer).Proper := by
  simp [Proper]

theorem atTopLevel_start : ({} : Lexer).atTopLevel = true := rfl

variable {lexer after : Lexer} {atEnd : Bool} {input rest : Text}

theorem Outcome.proper {taken : Step}
    (outcome : Outcome lexer input taken after) (proper : lexer.Proper) :
    after.Proper := by
  cases outcome with
  | character head tail => exact proper
  | dashes code tail => exact proper
  | marker top tail => exact proper
  | openGuard top digits tail nonempty allDigits => exact fun _ => Nat.one_pos
  | openPlain code tail => exact fun _ => Nat.succ_pos _
  | close inside tail =>
      simp only [Proper, closeOne, Bool.and_eq_true, bne_iff_ne, ne_eq, and_imp]
      intro guarded deeper
      omega

theorem outcome_next (lexer : Lexer) {input : Text} (nonempty : input ≠ []) :
    Outcome lexer input (lexer.step true input).1 (lexer.next input) := by
  cases input with
  | nil => exact absurd rfl nonempty
  | cons head tail => exact outcome_step (step_true_ne_needMore head tail)

theorem Reads.proper {steps : List Step}
    (reads : Reads lexer input steps after rest) (proper : lexer.Proper) :
    after.Proper := by
  induction reads with
  | done lexer rest => exact proper
  | step nonempty behind ih =>
      exact ih ((outcome_next _ nonempty).proper proper)

/-- A decided step is a step of a reading. -/
theorem Reads.of_decided {taken : Step}
    (stepEq : lexer.step atEnd input = (taken, after))
    (decided : taken ≠ .needMore) :
    Reads lexer input [taken] after (input.drop taken.consumed) := by
  have sameAtEnd : lexer.step true input = (taken, after) := by
    cases atEnd with
    | true => exact stepEq
    | false =>
        have decidedStep : (lexer.step false input).1 ≠ .needMore := by
          rwa [stepEq]
        exact (step_true_of_decided decidedStep).trans stepEq
  have nonempty : input ≠ [] := by
    intro empty
    subst empty
    have waits := congrArg Prod.fst stepEq
    exact decided waits.symm
  have one := Reads.one lexer nonempty
  rwa [next, Lexer.taken, sameAtEnd] at one

theorem eq_start_of_atTopLevel (proper : lexer.Proper)
    (top : lexer.atTopLevel = true) :
    lexer = {} := by
  cases lexer with
  | mk depth guarded lex =>
      simp only [atTopLevel, Bool.and_eq_true, beq_iff_eq] at top
      obtain ⟨rfl, rfl⟩ := top
      cases guarded with
      | false => rfl
      | true => exact absurd (proper rfl) (Nat.lt_irrefl 0)

theorem closeOne_eq_start (inside : 0 < lexer.depth)
    (outside : lexer.closeOne.depth = 0) :
    lexer.closeOne = {} := by
  have outermost : lexer.depth = 1 := by
    simp only [closeOne] at outside
    omega
  simp [closeOne, outermost]

theorem not_mem_of_all {marks : List Char} {holds : Char → Bool}
    {character : Char} (none : marks.all (fun mark => !holds mark) = true)
    (found : holds character = true) :
    character ∉ marks := by
  intro mark
  have other := List.all_eq_true.mp none character mark
  simp [found] at other

theorem forall_not_mem_of_all {text marks : List Char}
    (avoids : text.all (· ∉ marks) = true) :
    ∀ character ∈ text, character ∉ marks := fun character member =>
  of_decide_eq_true (List.all_eq_true.mp avoids character member)

/-- The characters that can begin a literal, a comment or a guard. -/
def openers : List Char :=
  [singleQuote, doubleQuote, backtick, '#', '-', '/']

theorem not_mem_openers_of_isBlank {character : Char}
    (blank : isBlank character = true) :
    character ∉ openers :=
  not_mem_of_all (by decide) blank

theorem step_of_plain {head : Char} (tail : Text)
    (top : lexer.atTopLevel = true) (plain : head ∉ openers) :
    lexer.step atEnd (head :: tail) = (.skip 1, lexer) := by
  simp only [openers, List.mem_cons, List.not_mem_nil, or_false,
    not_or] at plain
  obtain ⟨noSingle, noDouble, noBacktick, noHash, noDash, noSlash⟩ := plain
  simp only [atTopLevel, Bool.and_eq_true, beq_iff_eq] at top
  obtain ⟨outside, code⟩ := top
  simp [step, code, stepPlain, outside, inCode, isQuote, noSingle, noDouble,
    noBacktick, noHash, noDash, noSlash]

/-- Trivia are read step by step up to the first token. -/
theorem triviaLength_cons (lexer : Lexer) (head : Char) (tail : Text) :
    lexer.triviaLength (head :: tail) =
      if lexer.atTopLevel && !isAsciiBlank head &&
          !beginsComment (lexer.step true (head :: tail)) then 0
      else
        lexer.taken (head :: tail) +
          (lexer.next (head :: tail)).triviaLength
            ((head :: tail).drop (lexer.taken (head :: tail))) := by
  rw [triviaLength]
  cases top : lexer.atTopLevel with
  | false => rfl
  | true =>
      cases blank : isAsciiBlank head with
      | false => simp
      | true =>
          have skips : lexer.step true (head :: tail) = (.skip 1, lexer) :=
            step_of_plain tail top
              (not_mem_openers_of_isBlank (isBlank_of_isAsciiBlank blank))
          simp [taken, next, skips, Step.consumed]

theorem triviaLength_of_plain {lexer : Lexer} {head : Char} (tail : Text)
    (top : lexer.atTopLevel = true) (plain : head ∉ openers)
    (notBlank : isAsciiBlank head = false) :
    lexer.triviaLength (head :: tail) = 0 := by
  have code : lexer.lex = .code := by
    simp only [atTopLevel, Bool.and_eq_true, beq_iff_eq] at top
    exact top.2
  rw [triviaLength_cons, step_of_plain tail top plain]
  simp [top, notBlank, beginsComment, code]

theorem Reads.plain {head : Char} (tail : Text) (top : lexer.atTopLevel = true)
    (plain : head ∉ openers) :
    Reads lexer (head :: tail) [.skip 1] lexer tail := by
  have stepEq : lexer.step true (head :: tail) = (.skip 1, lexer) :=
    step_of_plain tail top plain
  exact .of_decided stepEq (by simp)

theorem Reads.plains (lexer : Lexer) {piece : Text} (rest : Text)
    (top : lexer.atTopLevel = true)
    (plain : ∀ character ∈ piece, character ∉ openers) :
    ∃ steps, Reads lexer (piece ++ rest) steps lexer rest := by
  induction piece with
  | nil => exact ⟨[], .done _ _⟩
  | cons head tail ih =>
      obtain ⟨steps, reads⟩ := ih fun character member =>
        plain character (.tail head member)
      exact ⟨_,
        (Reads.plain (tail ++ rest) top (plain head (.head tail))).trans reads⟩

end Lexer

end SqlDump
