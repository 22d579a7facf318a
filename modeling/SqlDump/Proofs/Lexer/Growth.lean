import SqlDump.Proofs.Lexer.Decision

/-!
# A buffer that grows

A lexer that meets the end of its buffer waits where it cannot decide and tries
again when more input has arrived.  Whatever chunks the buffer grows by, it
takes the steps that it takes when the whole input is there from the start.  The
characters of a buffer may be single bytes, so a chunk may also end inside a
longer character.
-/

namespace SqlDump

namespace Lexer

/-- The steps taken so far, the state behind them, and the part of the buffer
that waits. -/
structure Run where
  steps : List Step := []
  after : Lexer
  waiting : Text := []
deriving DecidableEq, Repr

def Run.withEarlier (run : Run) (earlier : List Step) : Run :=
  { run with steps := earlier ++ run.steps }

/-- Step over a buffer as far as it can be decided. -/
def run (atEnd : Bool) (lexer : Lexer) : Text → Run
  | [] => { after := lexer }
  | head :: tail =>
      let taken := (lexer.step atEnd (head :: tail)).1
      let after := (lexer.step atEnd (head :: tail)).2
      if taken = .needMore then { after := after, waiting := head :: tail }
      else (after.run atEnd ((head :: tail).drop taken.consumed)).withEarlier
        [taken]
termination_by text => text.length
decreasing_by
  rename_i decided
  rcases lexer.step_eq_needMore_or_consumed_pos atEnd (head :: tail)
    with waits | moves
  · exact absurd waits decided
  · simp only [List.length_drop, List.length_cons]
    omega

def Run.resume (run : Run) (atEnd : Bool) (more : Text) : Run :=
  (run.after.run atEnd (run.waiting ++ more)).withEarlier run.steps

/-- Step over a buffer that grows by the chunks, and then with the end in
sight. -/
def runChunks (lexer : Lexer) (chunks : List Text) : Run :=
  let start : Run := { after := lexer }
  (chunks.foldl (fun run chunk => run.resume false chunk) start).resume true []

variable {lexer after : Lexer} {atEnd : Bool} {head : Char} {tail : Text}
  {taken : Step}

theorem Run.withEarlier_withEarlier (run : Run) (first second : List Step) :
    (run.withEarlier second).withEarlier first =
      run.withEarlier (first ++ second) := by
  simp [withEarlier]

theorem Run.resume_withEarlier (run : Run) (earlier : List Step) (atEnd : Bool)
    (more : Text) :
    (run.withEarlier earlier).resume atEnd more =
      (run.resume atEnd more).withEarlier earlier :=
  (withEarlier_withEarlier _ earlier run.steps).symm

private theorem run_of_needMore
    (waits : (lexer.step atEnd (head :: tail)).1 = .needMore) :
    lexer.run atEnd (head :: tail) = { after := lexer, waiting :=
      head :: tail } := by
  rw [run, step_of_needMore waits]
  exact if_pos rfl

theorem run_of_decided
    (stepEq : lexer.step atEnd (head :: tail) = (taken, after))
    (decided : taken ≠ .needMore) :
    lexer.run atEnd (head :: tail) =
      (after.run atEnd ((head :: tail).drop taken.consumed)).withEarlier
        [taken] := by
  rw [run, stepEq]
  exact if_neg decided

/-- Stopping where the first part ends and going on is one run. -/
theorem run_append (atEnd : Bool) (lexer : Lexer) (text more : Text) :
    lexer.run atEnd (text ++ more) = (lexer.run false text).resume
      atEnd more := by
  induction lexer, text using step_induction false with
  | nil lexer => rw [run]; rfl
  | wait lexer head tail waits => rw [run_of_needMore waits]; rfl
  | step lexer head tail taken after stepEq decided ih =>
      have decidedStep : (lexer.step false (head :: tail)).1 ≠ .needMore := by
        rwa [stepEq]
      have stands := step_append atEnd more decidedStep
      have fits := lexer.consumed_step_le false (head :: tail)
      rw [stepEq] at stands fits
      rw [List.cons_append] at stands ⊢
      rw [run_of_decided stands decided, run_of_decided stepEq decided,
        Run.resume_withEarlier, ← ih, ← List.cons_append,
        List.drop_append_of_le_length fits]

theorem Run.resume_resume (run : Run) (atEnd : Bool) (first second : Text) :
    (run.resume false first).resume atEnd second =
      run.resume atEnd (first ++ second) := by
  change ((run.after.run false (run.waiting ++ first)).withEarlier
    run.steps).resume atEnd second = _
  rw [resume_withEarlier, ← run_append, List.append_assoc]
  rfl

theorem Run.foldl_resume (run : Run) (chunks : List Text) (atEnd : Bool)
    (more : Text) :
    (chunks.foldl (fun run chunk => run.resume false chunk) run).resume
      atEnd more =
      run.resume atEnd (chunks.flatten ++ more) := by
  induction chunks generalizing run with
  | nil => rfl
  | cons chunk chunks ih =>
      rw [List.foldl_cons, ih, resume_resume, List.flatten_cons,
        List.append_assoc]

private theorem waiting_run_true (lexer : Lexer) (text : Text) :
    (lexer.run true text).waiting = [] := by
  induction lexer, text using step_induction true with
  | nil lexer => rw [run]
  | wait lexer head tail waits =>
      exact absurd waits (step_true_ne_needMore head tail)
  | step lexer head tail taken after stepEq decided ih =>
      rw [run_of_decided stepEq decided]
      exact ih

/-- A step asks for more input and leaves the state alone, or it is the step
over every longer buffer.  So over a buffer that grows by chunks a lexer takes
the steps that it takes over the whole, and it ends in the same state. -/
theorem decisions_stand (lexer : Lexer) :
    (∀ (buffer more : Text) (place : Nat),
      lexer.step false (buffer.drop place) = (.needMore, lexer) ∨
        ((lexer.step false (buffer.drop place)).1 ≠ .needMore ∧
          ∀ atEnd, lexer.step atEnd ((buffer ++ more).drop place) =
            lexer.step false (buffer.drop place))) ∧
    ∀ chunks : List Text,
      lexer.runChunks chunks = lexer.run true chunks.flatten ∧
        (lexer.run true chunks.flatten).waiting = [] := by
  constructor
  · intro buffer more place
    by_cases waits : (lexer.step false (buffer.drop place)).1 = .needMore
    · exact .inl (step_of_needMore waits)
    · right
      refine ⟨waits, fun atEnd => ?_⟩
      have inside : place ≤ buffer.length := by
        apply Nat.le_of_not_lt
        intro beyond
        rw [List.drop_eq_nil_of_le (Nat.le_of_lt beyond)] at waits
        exact waits rfl
      rw [List.drop_append_of_le_length inside]
      exact step_append atEnd more waits
  · intro chunks
    refine ⟨?_, waiting_run_true lexer chunks.flatten⟩
    rw [runChunks, Run.foldl_resume, List.append_nil]
    rfl

end Lexer

end SqlDump
