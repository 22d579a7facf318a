import SqlDump.Proofs.Lexer.Waiting

/-!
# Step boundaries in code

A word that ends something counts only where a step of the lexer ends in
top-level code.  Where it does so for the first time, what follows it plays no
part: the steps in front of it are the same behind every continuation.
-/

namespace SqlDump

namespace Lexer

/-- A step ends behind `front` and leaves the lexer in top-level code. -/
def CodeBoundary (lexer : Lexer) (front rest : Text) : Prop :=
  ∃ steps after, Reads lexer (front ++ rest) steps after rest ∧
  after.atTopLevel = true

/-- Behind `front` the word stands at a boundary in code for the first time. -/
structure FirstBoundary (lexer : Lexer) (word front behind : Text) : Prop where
  here : lexer.CodeBoundary front (word ++ behind)
  first : ∀ earlier later, front ++ (word ++ behind) =
    earlier ++ (word ++ later) →
    lexer.CodeBoundary earlier (word ++ later) → front.length ≤ earlier.length

variable {lexer middle after : Lexer} {piece front rest word behind : Text}
  {steps : List Step}

theorem Reads.length_le {input : Text}
    (reads : Reads lexer input steps after rest) :
    rest.length ≤ input.length := by
  obtain ⟨piece, split⟩ := reads.suffix
  rw [split, List.length_append]
  exact Nat.le_add_left _ _

theorem Reads.of_shorter {input : Text}
    (reads : Reads lexer input steps after rest)
    (shorter : rest.length < input.length) :
    ∃ later, Reads (lexer.next input) (input.drop (lexer.taken input)) later
      after rest := by
  cases reads with
  | done => exact absurd shorter (Nat.lt_irrefl _)
  | step nonempty behind => exact ⟨_, behind⟩

theorem codeBoundary_nil : lexer.CodeBoundary [] rest ↔
    lexer.atTopLevel = true := by
  constructor
  · rintro ⟨steps, after, reads, top⟩
    cases reads with
    | done => exact top
    | step nonempty behind =>
        exfalso
        obtain ⟨head, tail, rfl⟩ := List.exists_cons_of_ne_nil nonempty
        have smaller := lexer.length_drop_taken_lt head tail
        exact absurd behind.length_le (Nat.not_le_of_lt smaller)
  · intro top
    exact ⟨[], lexer, .done lexer rest, top⟩

/-- No boundary lies inside a step. -/
theorem CodeBoundary.taken_le (boundary : lexer.CodeBoundary front rest)
    (nonempty : front ≠ []) :
    lexer.taken (front ++ rest) ≤ front.length := by
  obtain ⟨steps, after, reads, -⟩ := boundary
  have positive := List.length_pos_iff.mpr nonempty
  obtain ⟨later, behind⟩ := reads.of_shorter (by rw [List.length_append]; omega)
  have fits := behind.length_le
  rw [List.length_drop, List.length_append] at fits
  have inside := lexer.taken_le (front ++ rest)
  rw [List.length_append] at inside
  omega

theorem exists_piece (nonempty : front ≠ [])
    (fits : lexer.taken (front ++ rest) ≤ front.length) :
    ∃ piece later, front = piece ++ later ∧ piece ≠ [] ∧
      lexer.taken (front ++ rest) = piece.length := by
  have positive : 0 < lexer.taken (front ++ rest) := by
    obtain ⟨head, tail, frontEq⟩ := List.exists_cons_of_ne_nil nonempty
    rw [frontEq]
    exact lexer.taken_pos head (tail ++ rest)
  have length : (front.take (lexer.taken (front ++ rest))).length =
      lexer.taken (front ++ rest) := by
    rw [List.length_take, Nat.min_eq_left fits]
  refine ⟨_, _,
    (List.take_append_drop (lexer.taken (front ++ rest)) front).symm, ?_,
    length.symm⟩
  apply List.ne_nil_of_length_pos
  rwa [length]

theorem codeBoundary_taken (nonempty : piece ≠ [])
    (taken : lexer.taken (piece ++ (front ++ rest)) = piece.length) :
    lexer.CodeBoundary (piece ++ front) rest ↔
      (lexer.next (piece ++ (front ++ rest))).CodeBoundary front rest := by
  have dropped :
      (piece ++ (front ++ rest)).drop (lexer.taken (piece ++ (front ++ rest))) =
        front ++ rest := by
    rw [taken, List.drop_left]
  unfold CodeBoundary
  rw [List.append_assoc]
  constructor
  · rintro ⟨steps, after, reads, top⟩
    have positive := List.length_pos_iff.mpr nonempty
    obtain ⟨later, behind⟩ :=
      reads.of_shorter (by simp only [List.length_append]; omega)
    rw [dropped] at behind
    exact ⟨later, after, behind, top⟩
  · rintro ⟨steps, after, reads, top⟩
    have nonemptyWhole : piece ++ (front ++ rest) ≠ [] := by simp [nonempty]
    have stepped := Reads.one lexer nonemptyWhole
    rw [dropped] at stepped
    exact ⟨_, after, stepped.trans reads, top⟩

theorem Reads.codeBoundary_iff
    (reads : Reads lexer (piece ++ (front ++ rest)) steps middle
        (front ++ rest)) :
    lexer.CodeBoundary (piece ++ front) rest ↔
      middle.CodeBoundary front rest := by
  induction steps generalizing lexer piece with
  | nil =>
      cases piece with
      | nil =>
          cases reads
          exact Iff.rfl
      | cons head tail =>
          exfalso
          generalize inputEq : head :: tail ++ (front ++ rest) = input at reads
          cases reads
          have lengths := congrArg List.length inputEq
          simp only [List.length_append, List.length_cons] at lengths
          omega
  | cons first steps ih =>
      cases reads with
      | step nonempty behind =>
          have fits := behind.length_le
          have inside := lexer.taken_le (piece ++ (front ++ rest))
          have within : lexer.taken (piece ++ (front ++ rest)) ≤
              piece.length := by
            rw [List.length_drop] at fits
            simp only [List.length_append] at fits inside
            omega
          have nonemptyPiece : piece ≠ [] := by
            intro empty
            obtain ⟨head, tail, inputEq⟩ := List.exists_cons_of_ne_nil nonempty
            have positive := lexer.taken_pos head tail
            rw [inputEq, empty, List.length_nil] at within
            omega
          obtain ⟨taken, later, rfl, nonemptyTaken, length⟩ :=
            exists_piece nonemptyPiece within
          rw [length, List.append_assoc, List.drop_left] at behind
          have regroup : later ++ (front ++ rest) = later ++ front ++ rest := by
            simp
          rw [List.append_assoc, regroup] at length
          rw [List.append_assoc, codeBoundary_taken nonemptyTaken length,
            ← regroup]
          exact ih behind

private theorem firstBoundary_nil (top : lexer.atTopLevel = true) :
    lexer.FirstBoundary word [] behind := by
  constructor
  · exact codeBoundary_nil.mpr top
  · intro earlier later _ _
    exact Nat.zero_le _

/-- Where the word does not stand at once, the first boundary lies behind the
next step. -/
theorem firstBoundary_taken (nonempty : piece ≠ [])
    (taken : lexer.taken (piece ++ (front ++ (word ++ behind))) = piece.length)
    (elsewhere : lexer.atTopLevel = true →
      ¬word <+: piece ++ (front ++ (word ++ behind))) :
    lexer.FirstBoundary word (piece ++ front) behind ↔
      (lexer.next (piece ++ (front ++ (word ++ behind)))).FirstBoundary word
        front behind := by
  constructor
  · intro boundary
    refine ⟨(codeBoundary_taken nonempty taken).mp boundary.here, ?_⟩
    intro earlier later split found
    rw [split] at taken found
    have foundBefore := (codeBoundary_taken nonempty taken).mpr found
    have first := boundary.first (piece ++ earlier) later
      (by rw [List.append_assoc, split, List.append_assoc]) foundBefore
    simp only [List.length_append] at first
    omega
  · intro boundary
    refine ⟨(codeBoundary_taken nonempty taken).mpr boundary.here, ?_⟩
    intro earlier later split found
    rw [List.append_assoc] at split
    cases earlier with
    | nil =>
        exfalso
        apply elsewhere (codeBoundary_nil.mp found)
        rw [split]
        exact List.prefix_append _ _
    | cons head tail =>
        have fits := found.taken_le (List.cons_ne_nil head tail)
        rw [← split, taken] at fits
        obtain ⟨further, earlierEq, splitLater⟩ :
            ∃ further, head :: tail = piece ++ further ∧
              front ++ (word ++ behind) = further ++ (word ++ later) := by
          rcases List.append_eq_append_iff.mp split with
            ⟨further, earlierEq, later⟩ | ⟨further, pieceEq, later⟩
          · exact ⟨further, earlierEq, later⟩
          · have lengths := congrArg List.length pieceEq
            rw [List.length_append] at lengths
            have none : further = [] := List.eq_nil_of_length_eq_zero (by omega)
            subst none
            exact ⟨[], by simpa using pieceEq.symm, by simpa using later.symm⟩
        rw [earlierEq, List.length_append, List.length_append]
        rw [earlierEq] at found
        rw [splitLater] at taken
        have foundLater := (codeBoundary_taken nonempty taken).mp found
        rw [← splitLater] at foundLater
        exact Nat.add_le_add_left
          (boundary.first further later splitLater foundLater) _

/-- The steps in front of the word look at most at its first character, unless
it is a dash alone that already stands at the cursor. -/
theorem step_congr_behind (nonemptyFront : front ≠ [])
    (nonemptyWord : word ≠ [])
    (boundary : lexer.CodeBoundary front (word ++ behind))
    (elsewhere : lexer.atTopLevel = true → ¬word <+: front ++ (word ++ behind))
    (other : Text) :
    lexer.step true (front ++ (word ++ other)) =
      lexer.step true (front ++ (word ++ behind)) := by
  have fits := boundary.taken_le nonemptyFront
  have frontLength := List.length_pos_iff.mpr nonemptyFront
  have wordLength := List.length_pos_iff.mpr nonemptyWord
  by_cases undecided : (lexer.step false (front ++ word)).1 = .needMore
  · exfalso
    have waits := waits_of_needMore (by simp [nonemptyFront]) undecided
    rw [← List.append_assoc] at fits
    generalize wholeEq : front ++ word = whole at waits fits
    have lengths := congrArg List.length wholeEq
    rw [List.length_append] at lengths
    cases waits with
    | star inside => simp at lengths; omega
    | slash code => simp at lengths; omega
    | dash code => simp at lengths; omega
    | opening top =>
        have code : lexer.lex = .code := by
          simp only [atTopLevel, Bool.and_eq_true, beq_iff_eq] at top
          exact top.2
        have covers := covers_opening code behind
        simp only [List.length_cons, List.length_nil] at lengths
        simp only [List.cons_append, List.nil_append] at fits
        omega
    | marker top digits allDigits =>
        have covers := covers_marker top allDigits behind
        simp only [List.length_cons] at lengths
        simp only [List.cons_append] at fits
        omega
    | dashes code =>
        obtain ⟨rfl, rfl⟩ : front = ['-'] ∧ word = ['-'] := by
          have one : front.length = 1 := by simp at lengths; omega
          obtain ⟨dash, rfl⟩ := List.length_eq_one_iff.mp one
          simp only [List.cons_append, List.nil_append, List.cons.injEq]
            at wholeEq
          exact ⟨by rw [wholeEq.1], wholeEq.2⟩
        have top : lexer.atTopLevel = true := by
          rcases dash_cases code ('-' :: behind) with ⟨one, same⟩ | ⟨two, -⟩
          · have dash : lexer.CodeBoundary (['-'] ++ []) (['-'] ++ behind) :=
              boundary
            have next :=
              (codeBoundary_taken (List.cons_ne_nil '-' []) one).mp dash
            rw [codeBoundary_nil] at next
            change (lexer.next ('-' :: '-' :: behind)).atTopLevel = true at next
            rwa [same] at next
          · simp only [List.cons_append, List.nil_append, List.length_singleton]
              at fits
            omega
        exact elsewhere top (by simp)
  · have stable := step_append true other undecided
    have stableBehind := step_append true behind undecided
    rw [List.append_assoc] at stable stableBehind
    rw [stable, stableBehind]

theorem FirstBoundary.congr_behind
    (boundary : lexer.FirstBoundary word front behind) (nonempty : word ≠ [])
    (other : Text) : lexer.FirstBoundary word front other := by
  induction lexer, front using Text.drop_induction with
  | nil lexer => exact firstBoundary_nil (codeBoundary_nil.mp boundary.here)
  | cons lexer head tail ih =>
      have elsewhere (later : Text) :
          lexer.atTopLevel = true →
          ¬word <+: head :: tail ++ (word ++ later) := by
        intro top starts
        have known : word <+: head :: tail ++ word := by
          rw [← List.append_assoc] at starts
          exact List.prefix_of_prefix_length_le starts
            (List.prefix_append _ later) (by simp; omega)
        obtain ⟨more, split⟩ := known
        have first := boundary.first [] (more ++ behind)
          (by
            rw [List.nil_append, ← List.append_assoc, ← List.append_assoc,
              split])
          (codeBoundary_nil.mpr top)
        simp at first
      have same := step_congr_behind (List.cons_ne_nil head tail) nonempty
        boundary.here
        (elsewhere behind) other
      have fits := boundary.here.taken_le (List.cons_ne_nil head tail)
      obtain ⟨piece, front, frontEq, nonemptyPiece, takenEq⟩ :=
        exists_piece (List.cons_ne_nil head tail) fits
      have later (after : Lexer)
          (found : after.FirstBoundary word front behind) :
          after.FirstBoundary word front other := by
        have positive := List.length_pos_iff.mpr nonemptyPiece
        have known := ih after piece.length positive
        rw [frontEq, List.drop_left] at known
        exact known found
      rw [frontEq] at boundary elsewhere same takenEq ⊢
      simp only [List.append_assoc] at elsewhere same takenEq
      have takenOther : lexer.taken (piece ++ (front ++ (word ++ other))) =
          piece.length := by
        rw [taken, same]
        exact takenEq
      have nextOther : lexer.next (piece ++ (front ++ (word ++ other))) =
          lexer.next (piece ++ (front ++ (word ++ behind))) := by
        rw [next, same]
        rfl
      have behindStep :=
        (firstBoundary_taken nonemptyPiece takenEq (elsewhere behind)).mp
          boundary
      apply (firstBoundary_taken nonemptyPiece takenOther (elsewhere other)).mpr
      rw [nextOther]
      exact later _ behindStep

/-- In front of the first boundary the places do not depend on what follows the
word. -/
theorem FirstBoundary.places_take
    (boundary : lexer.FirstBoundary word front behind) (nonempty : word ≠ [])
    (other : Text) :
    (lexer.places (front ++ (word ++ behind))).take front.length =
      (lexer.places (front ++ (word ++ other))).take front.length := by
  obtain ⟨_, _, readsBehind, topBehind⟩ := boundary.here
  obtain ⟨_, _, readsOther, topOther⟩ :=
    (boundary.congr_behind nonempty other).here
  apply places_take_congr
  · rw [readsBehind.inCodeAt_append]
    exact topBehind
  · rw [readsOther.inCodeAt_append]
    exact topOther

end Lexer

end SqlDump
