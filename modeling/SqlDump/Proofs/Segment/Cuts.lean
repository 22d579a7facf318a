import SqlDump.Proofs.Lexer.Decision
import SqlDump.Proofs.Lexer.Outcome
import SqlDump.Segment

/-!
# Feeds of the scanner compose

How the text between two guards is cut into segments depends on the chunks.
What does not depend on them are the atoms of a list of segments: its single
characters and its guards.  Feeding a text and finishing gives the atoms of a
scanner that has the whole text ahead and the end in sight.
-/

namespace SqlDump

/-- A segment list without its cuts through text. -/
inductive Atom where
  | char (character : Char)
  | guard (guard : Guard) (line : Nat)
deriving DecidableEq, Repr

def Segment.atoms : Segment → List Atom
  | .text piece => piece.map .char
  | .guard opened line => [.guard opened line]

def atomsOf (segments : List Segment) : List Atom :=
  segments.flatMap Segment.atoms

@[simp] theorem atomsOf_nil : atomsOf [] = [] := rfl

@[simp] theorem atomsOf_cons (segment : Segment) (segments : List Segment) :
    atomsOf (segment :: segments) = segment.atoms ++ atomsOf segments := rfl

@[simp] theorem atomsOf_append (first second : List Segment) :
    atomsOf (first ++ second) = atomsOf first ++ atomsOf second := by
  simp [atomsOf]

/-- Only the marker of a guard brings the lexer into one. -/
theorem Lexer.Outcome.guarded {lexer after : Lexer} {input : Text}
    {taken : Step} (outcome : Lexer.Outcome lexer input taken after)
    (inside : after.guarded = true) :
    lexer.guarded = true ∨ ∃ count, taken = .openGuard count := by
  cases outcome with
  | character head tail => exact .inl inside
  | dashes code tail => exact .inl inside
  | marker top tail => exact .inl inside
  | openGuard top digits tail nonempty allDigits => exact .inr ⟨_, rfl⟩
  | openPlain code tail => exact .inl inside
  | close deeper tail =>
      simp only [closeOne, Bool.and_eq_true] at inside
      exact .inl inside.1

namespace Scanner

@[simp] theorem atomsOf_textSegment (reversed : Text) :
    atomsOf (textSegment reversed) = reversed.reverse.map .char := by
  unfold textSegment
  split
  · next empty => simp [empty]
  · simp [Segment.atoms]

theorem scan_induction (atEnd : Bool) {motive : Scanner → Text → Prop}
    (nil : ∀ scanner, motive scanner [])
    (wait : ∀ scanner head tail, (scanner.lexer.step atEnd (head :: tail)).1 =
        .needMore → motive scanner (head :: tail))
    (step : ∀ scanner head tail taken after,
      scanner.lexer.step atEnd (head :: tail) = (taken, after) →
      taken ≠ .needMore →
      motive
        (scanner.advance taken after ((head :: tail).take taken.consumed)).1
        ((head :: tail).drop taken.consumed) → motive scanner (head :: tail))
    (scanner : Scanner) (rest : Text) : motive scanner rest := by
  induction scanner, rest using Text.drop_induction with
  | nil scanner => exact nil scanner
  | cons scanner head tail ih =>
      by_cases waits : (scanner.lexer.step atEnd (head :: tail)).1 = .needMore
      · exact wait scanner head tail waits
      · have progress :=
          (scanner.lexer.step_eq_needMore_or_consumed_pos atEnd
            (head :: tail)).resolve_left waits
        exact step scanner head tail _ _ rfl waits (ih _ _ progress)

variable {scanner : Scanner} {atEnd : Bool} {head : Char} {tail : Text}
  {taken : Step} {after : Lexer}

theorem scanRest_of_decided (found : List Segment)
    (stepEq : scanner.lexer.step atEnd (head :: tail) = (taken, after))
    (decided : taken ≠ .needMore) :
    scanRest atEnd scanner found (head :: tail) =
      scanRest atEnd
        (scanner.advance taken after ((head :: tail).take taken.consumed)).1
        ((scanner.advance taken after
          ((head :: tail).take taken.consumed)).2.reverse ++ found)
        ((head :: tail).drop taken.consumed) := by
  rw [scanRest]
  simp only [stepEq, decided, if_false]

private theorem scanRest_eq_append (scanner : Scanner) (found : List Segment)
    (rest : Text) :
    scanRest atEnd scanner found rest =
      ((scanRest atEnd scanner [] rest).1,
        (scanRest atEnd scanner [] rest).2 ++ found) := by
  induction scanner, rest using scan_induction atEnd generalizing found with
  | nil scanner => simp [scanRest]
  | wait scanner head tail waits => simp [scanRest, waits]
  | step scanner head tail taken after stepEq decided ih =>
      rw [scanRest_of_decided found stepEq decided,
        scanRest_of_decided [] stepEq decided, ih, ih (_ ++ [])]
      simp

def withAhead (scanner : Scanner) (waiting : Text) : Scanner :=
  { scanner with ahead := waiting }

/-- The scanner with `earlier` gathered in front of what it gathered. -/
def withEarlier (scanner : Scanner) (earlier : Text) : Scanner :=
  { scanner with gathered := scanner.gathered ++ earlier.reverse }

theorem scan_nil (scanner : Scanner) (atEnd : Bool) :
    scanner.scan atEnd [] = (scanner.withAhead []).release := by
  simp [scan, scanRest, withAhead]

theorem scan_of_needMore (scanner : Scanner)
    (waits : (scanner.lexer.step atEnd (head :: tail)).1 = .needMore) :
    scanner.scan atEnd (head :: tail) =
      (scanner.withAhead (head :: tail)).release := by
  simp [scan, scanRest, waits, withAhead]

theorem scan_of_decided (scanner : Scanner)
    (stepEq : scanner.lexer.step atEnd (head :: tail) = (taken, after))
    (decided : taken ≠ .needMore) :
    scanner.scan atEnd (head :: tail) =
      (((scanner.advance taken after
        ((head :: tail).take taken.consumed)).1.scan atEnd
          ((head :: tail).drop taken.consumed)).1,
        (scanner.advance taken after ((head :: tail).take taken.consumed)).2 ++
          ((scanner.advance taken after
            ((head :: tail).take taken.consumed)).1.scan atEnd
            ((head :: tail).drop taken.consumed)).2) := by
  simp only [scan, scanRest_of_decided [] stepEq decided]
  rw [scanRest_eq_append]
  simp

private theorem advance_withAhead (scanner : Scanner) (waiting : Text)
    (taken : Step) (after : Lexer) (piece : Text) :
    (scanner.withAhead waiting).advance taken after piece =
      ((scanner.advance taken after piece).1.withAhead waiting,
        (scanner.advance taken after piece).2) := by
  unfold advance withAhead
  cases taken with
  | needMore => rfl
  | openGuard count => rfl
  | openPlain => dsimp only; split <;> rfl
  | close => dsimp only; split <;> rfl
  | skip count => dsimp only; split <;> rfl

theorem scan_withAhead (scanner : Scanner) (waiting rest : Text) :
    (scanner.withAhead waiting).scan atEnd rest = scanner.scan atEnd rest := by
  induction scanner, rest using scan_induction atEnd with
  | nil scanner => rw [scan_nil, scan_nil]; rfl
  | wait scanner head tail waits =>
      rw [scan_of_needMore scanner waits,
        scan_of_needMore (scanner.withAhead waiting) waits]
      rfl
  | step scanner head tail taken after stepEq decided ih =>
      rw [scan_of_decided scanner stepEq decided,
        scan_of_decided (scanner.withAhead waiting) stepEq decided,
        advance_withAhead, ih]

theorem release_withEarlier (scanner : Scanner) (earlier : Text)
    (outside : scanner.lexer.guarded = false) :
    ((scanner.withEarlier earlier).release).1 = scanner.release.1 ∧
      atomsOf ((scanner.withEarlier earlier).release).2 =
        earlier.map .char ++ atomsOf scanner.release.2 := by
  simp [release, withEarlier, outside]

/-- Outside guards a step adds to what was gathered, or it opens a guard and
releases it. -/
theorem advance_withEarlier (taken : Step) (after : Lexer)
    (earlier piece : Text) (outside : scanner.lexer.guarded = false) :
    ((∀ count, taken ≠ .openGuard count) ∧
      (scanner.withEarlier earlier).advance taken after piece =
        ((scanner.advance taken after piece).1.withEarlier earlier,
          (scanner.advance taken after piece).2) ∧
      (scanner.advance taken after piece).2 = []) ∨
    (((scanner.withEarlier earlier).advance taken after piece).1 =
        (scanner.advance taken after piece).1 ∧
      atomsOf ((scanner.withEarlier earlier).advance taken after piece).2 =
        earlier.map .char ++
        atomsOf (scanner.advance taken after piece).2) := by
  unfold advance withEarlier
  cases taken with
  | needMore => simp
  | openGuard count => simp
  | openPlain => left; dsimp only; split <;> simp [gather]
  | close => left; simp [outside, gather]
  | skip count => left; dsimp only; split <;> simp [gather]

theorem advance_lexer (scanner : Scanner) (taken : Step) (after : Lexer)
    (piece : Text) :
    (scanner.advance taken after piece).1.lexer = after := by
  unfold advance
  cases taken with
  | needMore => rfl
  | openGuard count => rfl
  | openPlain => dsimp only; split <;> rfl
  | close => dsimp only; split <;> rfl
  | skip count => dsimp only; split <;> rfl

/-- Text outside guards may leave early or late. -/
theorem scan_withEarlier (atEnd : Bool) (earlier rest : Text)
    (scanner : Scanner) (outside : scanner.lexer.guarded = false) :
    ((scanner.withEarlier earlier).scan atEnd rest).1 =
      (scanner.scan atEnd rest).1 ∧
      atomsOf ((scanner.withEarlier earlier).scan atEnd rest).2 =
        earlier.map .char ++ atomsOf (scanner.scan atEnd rest).2 := by
  induction scanner, rest using scan_induction atEnd with
  | nil scanner =>
      rw [scan_nil, scan_nil]
      exact release_withEarlier (scanner.withAhead []) earlier outside
  | wait scanner head tail waits =>
      rw [scan_of_needMore scanner waits,
        scan_of_needMore (scanner.withEarlier earlier) waits]
      exact release_withEarlier (scanner.withAhead (head :: tail))
        earlier outside
  | step scanner head tail taken after stepEq decided ih =>
      rw [scan_of_decided scanner stepEq decided,
        scan_of_decided (scanner.withEarlier earlier) stepEq decided]
      rcases advance_withEarlier taken after earlier
          ((head :: tail).take taken.consumed) outside with
        ⟨noGuard, gathers, nothing⟩ | ⟨sameState, atomsEq⟩
      · have stillOutside : after.guarded = false := by
          refine Bool.eq_false_iff.mpr fun inside => ?_
          rcases (Lexer.outcome_of_step stepEq decided).guarded inside with
            guarded | ⟨count, opens⟩
          · rw [outside] at guarded
            exact Bool.false_ne_true guarded
          · exact noGuard count opens
        rw [gathers, nothing]
        exact ih (by rw [advance_lexer]; exact stillOutside)
      · rw [sameState]
        simp [atomsEq]

/-- A scan of what a released scanner has ahead goes on where the scan before it
stopped. -/
theorem scan_release (atEnd : Bool) (scanner : Scanner) (waiting rest : Text) :
    ((scanner.withAhead waiting).release.1.scan atEnd rest).1 =
      (scanner.scan atEnd rest).1 ∧
      atomsOf (scanner.scan atEnd rest).2 =
        atomsOf (scanner.withAhead waiting).release.2 ++
          atomsOf ((scanner.withAhead waiting).release.1.scan atEnd
            rest).2 := by
  cases guarded : scanner.lexer.guarded with
  | true =>
      have kept : (scanner.withAhead waiting).release =
          (scanner.withAhead waiting, []) := by
        simp [release, withAhead, guarded]
      rw [kept, scan_withAhead]
      simp
  | false =>
      let emptied : Scanner := { scanner with gathered := [] }
      have released : (scanner.withAhead waiting).release =
          (emptied.withAhead waiting, textSegment scanner.gathered) := by
        simp [release, withAhead, guarded, emptied]
      have whole : emptied.withEarlier scanner.gathered.reverse = scanner := by
        simp [withEarlier, emptied]
      have early := scan_withEarlier atEnd scanner.gathered.reverse rest emptied
        guarded
      rw [whole] at early
      rw [released, scan_withAhead]
      simp [early]

/-- What is decided early is what a scan of the whole text decides. -/
theorem scan_append (atEnd : Bool) (scanner : Scanner) (rest more : Text) :
    (scanner.scan atEnd (rest ++ more)).1 =
        ((scanner.scan false rest).1.scan atEnd
          ((scanner.scan false rest).1.ahead ++ more)).1 ∧
      atomsOf (scanner.scan atEnd (rest ++ more)).2 =
        atomsOf (scanner.scan false rest).2 ++
          atomsOf ((scanner.scan false rest).1.scan atEnd
            ((scanner.scan false rest).1.ahead ++ more)).2 := by
  have release_ahead (scanner : Scanner) : scanner.release.1.ahead =
      scanner.ahead := by
    unfold release
    split <;> rfl
  induction scanner, rest using scan_induction false with
  | nil scanner =>
      have resumed := scan_release atEnd scanner [] more
      rw [scan_nil, release_ahead]
      exact ⟨resumed.1.symm, resumed.2⟩
  | wait scanner head tail waits =>
      have resumed :=
        scan_release atEnd scanner (head :: tail) (head :: tail ++ more)
      rw [scan_of_needMore scanner waits, release_ahead]
      exact ⟨resumed.1.symm, resumed.2⟩
  | step scanner head tail taken after stepEq decided ih =>
      have decidedStep : (scanner.lexer.step false (head :: tail)).1 ≠
          .needMore := by
        rwa [stepEq]
      have sameStep := Lexer.step_append atEnd more decidedStep
      have fits := scanner.lexer.consumed_step_le false (head :: tail)
      rw [stepEq] at sameStep fits
      rw [List.cons_append] at sameStep
      rw [scan_of_decided scanner stepEq decided, List.cons_append,
        scan_of_decided scanner sameStep decided,
        ← List.cons_append, List.take_append_of_le_length fits,
        List.drop_append_of_le_length fits]
      simp [ih]

def withMore (scanner : Scanner) (more : Text) : Scanner :=
  { scanner with ahead := scanner.ahead ++ more }

/-- Finishing with a text ahead is feeding the first part of it and finishing
with the rest, up to cuts through text. -/
theorem finish_withMore (scanner : Scanner) (first second : Text) :
    (scanner.withMore (first ++ second)).finish.2.2 =
        ((scanner.feed first).1.withMore second).finish.2.2 ∧
      atomsOf (scanner.withMore (first ++ second)).finish.2.1 =
        atomsOf (scanner.feed first).2 ++
          atomsOf ((scanner.feed first).1.withMore second).finish.2.1 := by
  have whole := scan_append true scanner (scanner.ahead ++ first) second
  have sameScan (scanner : Scanner) (more rest : Text) :
      (scanner.withMore more).scan true rest = scanner.scan true rest :=
        scan_withAhead scanner _ _
  have ahead (scanner : Scanner) (more : Text) :
      (scanner.withMore more).ahead = scanner.ahead ++ more := rfl
  simp only [finish, feed, ahead, sameScan, ← List.append_assoc, whole]
  refine ⟨trivial, ?_⟩
  rw [atomsOf_append, atomsOf_append, whole.2, List.append_assoc]

end Scanner

/-- The segments of a text that is there as a whole. -/
def segmentsOf (text : Text) : List Segment :=
  (({} : Scanner).withMore text).finish.2.1

/-- The comment that the end of the text leaves open. -/
def openCommentOf? (text : Text) : Option OpenComment :=
  (({} : Scanner).withMore text).finish.2.2

end SqlDump
