import SqlDump.Proofs.Lexer.Boundary
import SqlDump.Proofs.Lexer.Comment
import SqlDump.Proofs.Segment.First

/-!
# The comment that is open at the end of a stream

A stream leaves a comment open if a marker opens one in top-level code and no
step up to the end of the text leads out of it.  There is at most one such
marker, and the scanner reports it.
-/

namespace SqlDump

namespace Lexer

/-- The steps lead to `after` in front of `rest`, and every state on the way is
inside a comment. -/
inductive StaysInside : Lexer → Text → Lexer → Text → Prop where
  | done {lexer : Lexer} {rest : Text} (inside : 0 < lexer.depth) :
      StaysInside lexer rest lexer rest
  | step {lexer after : Lexer} {input rest : Text} (inside : 0 < lexer.depth)
      (nonempty : input ≠ [])
      (behind : StaysInside (lexer.next input)
          (input.drop (lexer.taken input)) after rest) :
      StaysInside lexer input after rest

/-- In top-level code `marker` opens a comment in front of `behind`, and leads
to `inside`. -/
inductive Opening : Text → Text → CommentKind → Lexer → Prop where
  | guard {digits behind : Text} (nonempty : digits ≠ [])
      (run : (digits ++ behind).takeWhile Char.isDigit = digits) :
      Opening (guardMarker ++ digits) behind (.guard (versionOfDigits digits))
        { depth := 1, guarded := true }
  | plain {behind : Text} (noMark : behind.head? ≠ some '!') :
      Opening commentMarker behind .plain { depth := 1 }

variable {lexer middle after inside : Lexer} {input between rest marker behind :
  Text}
  {kind : CommentKind} {steps : List Step}

namespace StaysInside

theorem trans (first : StaysInside lexer input middle between)
    (second : StaysInside middle between after rest) :
    StaysInside lexer input after rest := by
  induction first with
  | done inside => exact second
  | step inside nonempty behind ih => exact .step inside nonempty (ih second)

theorem last (stays : StaysInside lexer input after rest) :
    0 < after.depth := by
  induction stays with
  | done inside => exact inside
  | step inside nonempty behind ih => exact ih

theorem reads (stays : StaysInside lexer input after rest) :
    ∃ steps, Reads lexer input steps after rest := by
  induction stays with
  | done inside => exact ⟨[], .done _ _⟩
  | step inside nonempty behind ih =>
      obtain ⟨steps, later⟩ := ih
      exact ⟨_, .step nonempty later⟩

theorem inside_of_reads (stays : StaysInside lexer input after [])
    (reached : Reads lexer input steps middle between) : 0 < middle.depth := by
  generalize ended : ([] : Text) = rest at stays
  induction stays generalizing steps with
  | done inside =>
      subst ended
      cases reached with
      | done => exact inside
      | step nonempty behind => exact absurd rfl nonempty
  | step inside nonempty behind ih =>
      cases reached with
      | done => exact inside
      | step _ later => exact ih later ended

end StaysInside

namespace Opening

theorem step_eq (opening : Opening marker behind kind inside) :
    ({} : Lexer).taken (marker ++ behind) = marker.length ∧
      ({} : Lexer).next (marker ++ behind) = inside := by
  cases opening with
  | @guard digits behind nonempty run =>
      have stepEq : ({} : Lexer).step true (guardMarker ++ digits ++ behind) =
          (.openGuard (3 + digits.length),
            { depth := 1, guarded := true }) := by
        simp [step, stepPlain, stepSlash, stepMarker, guardMarker, enterGuard,
          run, nonempty]
      rw [taken, next, stepEq]
      exact ⟨by simp [Step.consumed, guardMarker]; omega, rfl⟩
  | plain noMark =>
      have stepEq : ({} : Lexer).step true (commentMarker ++ behind) =
          (.openPlain, { depth := 1 }) := by
        cases behind with
        | nil => rfl
        | cons head tail =>
            have other : head ≠ '!' := by simpa using noMark
            simp [step, stepPlain, stepSlash, stepMarker, commentMarker,
              openOne, other]
      rw [taken, next, stepEq]
      exact ⟨rfl, rfl⟩

theorem nonempty (opening : Opening marker behind kind inside) :
    marker ++ behind ≠ [] := by
  cases opening with
  | guard nonempty run => simp [guardMarker]
  | plain noMark => simp [commentMarker]

private theorem inside_pos (opening : Opening marker behind kind inside) :
    0 < inside.depth := by
  cases opening with
  | guard nonempty run => exact Nat.one_pos
  | plain noMark => exact Nat.one_pos

theorem noBreak (opening : Opening marker behind kind inside) :
    '\n' ∉ marker := by
  cases opening with
  | @guard digits behind nonempty run =>
      intro member
      rcases List.mem_append.mp member with front | digit
      · exact absurd front (by decide)
      · rw [← run] at digit
        have isDigit := List.all_eq_true.mp List.all_takeWhile '\n' digit
        exact absurd isDigit (by decide)
  | plain noMark => decide

theorem unique {otherMarker otherBehind : Text} {otherKind : CommentKind}
    {otherInside : Lexer} (opening : Opening marker behind kind inside)
    (other : Opening otherMarker otherBehind otherKind otherInside)
    (same : marker ++ behind = otherMarker ++ otherBehind) :
    kind = otherKind := by
  cases opening with
  | @guard digits behind nonempty run =>
      cases other with
      | @guard otherDigits otherBehind otherNonempty otherRun =>
          have behindEq : digits ++ behind = otherDigits ++ otherBehind := by
            simpa [guardMarker] using same
          rw [behindEq, otherRun] at run
          rw [run]
      | plain noMark =>
          exfalso
          apply noMark
          have behindEq : '!' :: (digits ++ behind) = otherBehind := by
            simpa [guardMarker, commentMarker] using same
          rw [← behindEq, List.head?_cons]
  | plain noMark =>
      cases other with
      | @guard otherDigits otherBehind otherNonempty otherRun =>
          exfalso
          apply noMark
          have behindEq : behind = '!' :: (otherDigits ++ otherBehind) := by
            simpa [guardMarker, commentMarker] using same
          rw [behindEq, List.head?_cons]
      | plain otherNoMark => rfl

end Opening

theorem Reads.through {others : List Step}
    (first : Reads lexer input steps middle between)
    (second : Reads lexer input others after rest)
    (within : rest.length ≤ between.length) :
    ∃ later, Reads middle between later after rest := by
  induction first generalizing others with
  | done => exact ⟨others, second⟩
  | @step lexer middle input between steps nonempty behind ih =>
      cases second with
      | done =>
          exfalso
          obtain ⟨head, tail, rfl⟩ := List.exists_cons_of_ne_nil nonempty
          have smaller := after.length_drop_taken_lt head tail
          have fits := behind.length_le
          omega
      | step _ later => exact ih later within

/-- No reading leads from an opening that is never closed back to top-level
code. -/
theorem Opening.not_shorter (opening : Opening marker behind kind inside)
    (stays : StaysInside inside behind after [])
    (reads : Reads {} (marker ++ behind) steps {} rest) :
    ¬rest.length < (marker ++ behind).length := by
  intro shorter
  obtain ⟨later, reached⟩ := reads.of_shorter shorter
  obtain ⟨takenEq, nextEq⟩ := opening.step_eq
  rw [takenEq, nextEq, List.drop_left] at reached
  exact absurd (stays.inside_of_reads reached) (Nat.lt_irrefl 0)

/-- The lexer, which began with `text` and has `rest` in front of it, is in the
comment of the report: its marker stands in top-level code, on the line given,
and nothing ended it. -/
def InsideSince (report : OpenComment) (text : Text) (lexer : Lexer)
    (rest : Text) : Prop :=
  ∃ before marker content steps inside,
    text = before ++ (marker ++ content) ∧
      Reads {} text steps {} (marker ++ content) ∧
      Opening marker content report.kind inside ∧
      report.line = 1 + before.count '\n' ∧
      StaysInside inside content lexer rest

theorem InsideSince.trans {report : OpenComment} {text : Text}
    (since : InsideSince report text lexer input)
    (stays : StaysInside lexer input after rest) :
    InsideSince report text after rest := by
  obtain ⟨before, marker, content, steps, inside, split, reached, opening, line,
    within⟩ := since
  exact ⟨before, marker, content, steps, inside, split, reached, opening, line,
    within.trans stays⟩

end Lexer

/-- At the end of the text the comment of the report is open, and it is the
outermost one. -/
def LeavesOpen (text : Text) (report : OpenComment) : Prop :=
  ∃ after, Lexer.InsideSince report text after []

section

variable {text : Text} {report other : OpenComment}

open Lexer

theorem LeavesOpen.unique (leaves : LeavesOpen text report)
    (others : LeavesOpen text other) :
    report = other := by
  obtain ⟨_, before, marker, content, steps, inside, split, reached, opening,
    line, stays⟩ := leaves
  obtain ⟨_, otherBefore, otherMarker, otherContent, otherSteps, otherInside,
    otherSplit, otherReached, otherOpening, otherLine, otherStays⟩ := others
  have notShorter : ¬(otherMarker ++ otherContent).length <
      (marker ++ content).length := by
    intro shorter
    obtain ⟨later, between⟩ :=
      reached.through otherReached (Nat.le_of_lt shorter)
    exact opening.not_shorter stays between shorter
  have notLonger : ¬(marker ++ content).length <
      (otherMarker ++ otherContent).length := by
    intro shorter
    obtain ⟨later, between⟩ :=
      otherReached.through reached (Nat.le_of_lt shorter)
    exact otherOpening.not_shorter otherStays between shorter
  have sameLength : (marker ++ content).length =
      (otherMarker ++ otherContent).length := by omega
  rw [split] at otherSplit
  obtain ⟨sameBefore, sameBehind⟩ := List.append_inj' otherSplit sameLength
  have sameKind := opening.unique otherOpening sameBehind
  have sameLine : report.line = other.line := by
    rw [line, otherLine, sameBefore]
  cases report
  cases other
  simp only [OpenComment.mk.injEq]
  exact ⟨sameKind, sameLine⟩

theorem LeavesOpen.inside (leaves : LeavesOpen text report) {steps : List Step}
    {after : Lexer} (reads : Reads {} text steps after []) :
    0 < after.depth := by
  obtain ⟨_, before, marker, content, first, inside, split, reached, opening, -,
    stays⟩ := leaves
  have positive : ([] : Text).length < (marker ++ content).length :=
    List.length_pos_iff.mpr opening.nonempty
  obtain ⟨later, between⟩ := reached.through reads (Nat.zero_le _)
  obtain ⟨last, behind⟩ := between.of_shorter positive
  obtain ⟨takenEq, nextEq⟩ := opening.step_eq
  rw [takenEq, nextEq, List.drop_left] at behind
  exact stays.inside_of_reads behind

end

namespace Scanner

/-- The scanner takes `piece` in front of `behind` and gives segments. -/
inductive Advances (scanner : Scanner) :
    Text → Text → Scanner → List Segment → Prop where
  | guard (start : scanner.lexer = {}) {digits behind : Text}
      (nonempty : digits ≠ [])
      (run : (digits ++ behind).takeWhile Char.isDigit = digits) :
      Advances scanner (guardMarker ++ digits) behind
        { scanner with
          lexer := { depth := 1, guarded := true }
          gathered := []
          digits := digits
          openedAt := scanner.line }
        (textSegment scanner.gathered)
  | comment (start : scanner.lexer = {}) {behind : Text}
      (noMark : behind.head? ≠ some '!') :
      Advances scanner commentMarker behind
        ({ scanner with
          lexer := { depth := 1 }
          openedAt := scanner.line }.gather commentMarker) []
  | close (guarded : scanner.lexer.guarded = true) (behind : Text) :
      Advances scanner closingMarker behind
        { scanner with lexer := {}, gathered := [] }
        [.guard ⟨scanner.digits, scanner.gathered.reverse⟩ scanner.openedAt]
  | gathers {piece behind : Text} {after : Lexer}
      (sameGuard : after.guarded = scanner.lexer.guarded)
      (opensNone : 0 < after.depth → 0 < scanner.lexer.depth) :
      Advances scanner piece behind
        ({ scanner with
          lexer := after
          line := scanner.line + piece.count '\n' }.gather piece) []

variable {scanner : Scanner} {atEnd : Bool} {input : Text} {taken : Step}
  {after : Lexer}

theorem advances_of_step (proper : scanner.lexer.Proper)
    (stepEq : scanner.lexer.step atEnd input = (taken, after))
    (decided : taken ≠ .needMore) :
    scanner.Advances (input.take taken.consumed) (input.drop taken.consumed)
      (scanner.advance taken after (input.take taken.consumed)).1
      (scanner.advance taken after (input.take taken.consumed)).2 := by
  have outcome := Lexer.outcome_of_step stepEq decided
  have gathersLine (piece behind : Text) (noBreak : piece.count '\n' = 0)
      (sameGuard : after.guarded = scanner.lexer.guarded)
      (opensNone : 0 < after.depth → 0 < scanner.lexer.depth) :
      scanner.Advances piece behind
        ({ scanner with lexer := after }.gather piece) [] := by
    have gathers : scanner.Advances piece behind _ [] :=
      .gathers sameGuard opensNone
    rwa [noBreak] at gathers
  clear stepEq
  cases outcome with
  | character head tail =>
      have gathers : scanner.Advances [head] tail
          ({ scanner with
            lexer := scanner.lexer.behind head
            line := scanner.line + [head].count '\n' }.gather [head]) [] :=
              .gathers rfl id
      by_cases lineEnd : head = '\n'
      · subst lineEnd
        exact gathers
      · have other : ([head].head? = some '\n') = False := by simp [lineEnd]
        simp only [Step.consumed, List.take_succ_cons, List.take_zero,
          List.drop_succ_cons, List.drop_zero, advance, other, if_false]
        exact gathersLine [head] tail (by simp [lineEnd]) rfl id
  | dashes code tail => exact gathersLine ['-', '-'] tail rfl rfl id
  | marker top tail => exact gathersLine ['/', '*', '!'] tail rfl rfl id
  | openGuard top digits tail nonempty allDigits =>
      have start := Lexer.eq_start_of_atTopLevel proper top
      have opened := Advances.guard start nonempty allDigits
      have taken : (guardMarker ++ (digits ++ tail)).take
          (guardMarker.length + digits.length) =
          guardMarker ++ digits := by
        rw [← List.append_assoc, ← List.length_append, List.take_left]
      have dropped : (guardMarker ++ (digits ++ tail)).drop
          (guardMarker.length + digits.length) =
          tail := by
        rw [← List.append_assoc, ← List.length_append, List.drop_left]
      rw [Step.consumed, taken, dropped]
      simp only [advance, List.drop_left, Lexer.enterGuard, start]
      exact opened
  | openPlain code tail noMark =>
      by_cases outside : scanner.lexer.depth = 0
      · have top : scanner.lexer.atTopLevel = true := by
          simp [Lexer.atTopLevel, outside, code]
        have start := Lexer.eq_start_of_atTopLevel proper top
        have opened := Advances.comment start (noMark outside)
        simp only [advance, outside, if_true]
        rw [start]
        exact opened
      · simp only [advance, if_neg outside]
        exact gathersLine commentMarker tail rfl rfl fun _ =>
          Nat.pos_of_ne_zero outside
  | close inside tail =>
      by_cases ends : scanner.lexer.guarded = true ∧
      scanner.lexer.closeOne.depth = 0
      · have start := Lexer.closeOne_eq_start inside ends.2
        simp only [advance, if_pos ends]
        rw [start]
        exact .close ends.1 tail
      · simp only [advance, if_neg ends]
        refine gathersLine closingMarker tail rfl ?_ fun _ => inside
        have noClosing : ¬(Step.close = .close ∧ scanner.lexer.guarded = true ∧
            scanner.lexer.closeOne.depth = 0) := fun closes => ends closes.2
        exact guarded_of_gathers (.close inside tail) (by simp) noClosing

/-- The kind of the outermost open comment. -/
def openKind (scanner : Scanner) : CommentKind :=
  if scanner.lexer.guarded then .guard (versionOfDigits scanner.digits)
  else .plain

theorem openComment?_eq (scanner : Scanner) :
    scanner.openComment? =
      if scanner.lexer.depth = 0 then none
      else some ⟨scanner.openKind, scanner.openedAt⟩ := by
  unfold openComment? mode openKind
  split
  · next clean =>
      split at clean
      · next outside => rw [if_pos outside]
      · split at clean <;> simp at clean
  · next inGuard =>
      split at inGuard
      · simp at inGuard
      · next inside =>
          split at inGuard
          · next guarded => rw [if_neg inside, if_pos guarded]
          · simp at inGuard
  · next inComment =>
      split at inComment
      · simp at inComment
      · next inside =>
          split at inComment
          · simp at inComment
          · next plain => rw [if_neg inside, if_neg plain]

/-- The scanner has read `read` and has `rest` in front of it. -/
structure Accounts (scanner : Scanner) (read rest : Text) : Prop where
  proper : scanner.lexer.Proper
  reached : ∃ steps, Lexer.Reads {} (read ++ rest) steps scanner.lexer rest
  line : scanner.line = 1 + read.count '\n'
  since : 0 < scanner.lexer.depth →
    Lexer.InsideSince ⟨scanner.openKind, scanner.openedAt⟩ (read ++ rest)
      scanner.lexer rest

private theorem accounts_start (text : Text) :
    ({} : Scanner).Accounts [] text where
  proper := Lexer.proper_start
  reached := ⟨[], .done _ _⟩
  line := rfl
  since := fun inside => absurd inside (Nat.lt_irrefl 0)

variable {read rest piece behind : Text} {moved : Scanner}
  {segments : List Segment}

/-- A marker in top-level code begins the comment that is open behind it. -/
theorem Accounts.insideSince_of_opening {inside : Lexer} {kind : CommentKind}
    (accounts : scanner.Accounts read (piece ++ behind))
    (start : scanner.lexer = {})
    (opening : Lexer.Opening piece behind kind inside) :
    Lexer.InsideSince ⟨kind, scanner.line⟩ (read ++ piece ++ behind) inside
      behind := by
  obtain ⟨steps, reached⟩ := accounts.reached
  rw [start] at reached
  rw [List.append_assoc]
  exact ⟨read, piece, behind, steps, inside, rfl, reached, opening,
    accounts.line, .done opening.inside_pos⟩

theorem Accounts.advances (accounts : scanner.Accounts read (piece ++ behind))
    (advances : scanner.Advances piece behind moved segments)
    (nonempty : piece ++ behind ≠ [])
    (nextEq : scanner.lexer.next (piece ++ behind) = moved.lexer)
    (takenEq : scanner.lexer.taken (piece ++ behind) = piece.length) :
    moved.Accounts (read ++ piece) behind := by
  have readStep := Lexer.Reads.one scanner.lexer nonempty
  rw [nextEq, takenEq, List.drop_left] at readStep
  obtain ⟨steps, reached⟩ := accounts.reached
  have proper : moved.lexer.Proper :=
    nextEq ▸ (Lexer.outcome_next scanner.lexer nonempty).proper accounts.proper
  have reachedThen : ∃ steps, Lexer.Reads {} (read ++ piece ++ behind) steps
      moved.lexer behind := by
    rw [List.append_assoc]
    exact ⟨_, reached.trans readStep⟩
  have counts : (read ++ piece).count '\n' = read.count '\n' +
      piece.count '\n' :=
    List.count_append
  cases advances with
  | @guard start digits behind nonemptyDigits run =>
      have opening := Lexer.Opening.guard nonemptyDigits run
      have noBreak := List.count_eq_zero.mpr opening.noBreak
      refine ⟨proper, reachedThen, ?_,
        fun _ => accounts.insideSince_of_opening start opening⟩
      rw [counts, noBreak]
      exact accounts.line
  | comment start noMark =>
      have opening := Lexer.Opening.plain noMark
      have plain : scanner.lexer.guarded = false := by rw [start]
      refine ⟨proper, reachedThen, ?_,
        fun _ => accounts.insideSince_of_opening start opening⟩
      rw [counts]
      exact accounts.line
  | close guarded behind =>
      refine ⟨proper, reachedThen, ?_,
        fun inside => absurd inside (Nat.lt_irrefl 0)⟩
      rw [counts]
      exact accounts.line
  | @gathers _ _ after sameGuard opensNone =>
      refine ⟨proper, reachedThen, ?_, ?_⟩
      · rw [counts, ← Nat.add_assoc, ← accounts.line]
        rfl
      · intro inside
        have before := opensNone inside
        have since := accounts.since before
        have stays : Lexer.StaysInside scanner.lexer (piece ++ behind) after
            behind := by
          apply Lexer.StaysInside.step before nonempty
          rw [nextEq, takenEq, List.drop_left]
          exact .done inside
        have sameKind :
            scanner.openKind = ({ scanner with
              lexer := after
              line := scanner.line + piece.count '\n'
              }.gather piece).openKind := by
          simp only [openKind, gather, sameGuard]
        rw [← sameKind, List.append_assoc]
        exact since.trans stays

theorem Accounts.scan (accounts : scanner.Accounts read rest) :
    (scanner.scan true rest).1.Accounts (read ++ rest) [] := by
  induction scanner, rest using scan_induction true generalizing read with
  | nil scanner =>
      rw [scan_nil, List.append_nil]
      unfold release
      split
      · exact ⟨accounts.proper, accounts.reached, accounts.line, accounts.since⟩
      · exact ⟨accounts.proper, accounts.reached, accounts.line, accounts.since⟩
  | wait scanner head tail waits =>
      exact absurd waits (Lexer.step_true_ne_needMore head tail)
  | step scanner head tail taken after stepEq decided ih =>
      have advances := advances_of_step accounts.proper stepEq decided
      have fits := scanner.lexer.consumed_step_le true (head :: tail)
      have lexerEq :=
        scanner.advance_lexer taken after ((head :: tail).take taken.consumed)
      have inputEq := List.take_append_drop taken.consumed (head :: tail)
      have nextEq : scanner.lexer.next (head :: tail) = after := by
        rw [Lexer.next, stepEq]
      have takenEq : scanner.lexer.taken (head :: tail) =
          ((head :: tail).take taken.consumed).length := by
        rw [stepEq] at fits
        rw [Lexer.taken, stepEq, List.length_take, Nat.min_eq_left fits]
      rw [scan_of_decided scanner stepEq decided]
      generalize (head :: tail).take taken.consumed = piece at *
      generalize (head :: tail).drop taken.consumed = behind at *
      rw [← inputEq] at accounts nextEq takenEq ⊢
      have moved := accounts.advances advances (by simp [inputEq])
        (nextEq.trans lexerEq.symm)
        takenEq
      rw [← List.append_assoc]
      exact ih moved

end Scanner

theorem openCommentOf?_spec (text : Text) :
    ∃ scanned : Scanner, openCommentOf? text = scanned.openComment? ∧
    scanned.Accounts text [] := by
  have sameScan : (({} : Scanner).withMore text).scan true text =
      ({} : Scanner).scan true text :=
    Scanner.scan_withAhead _ _ _
  have accounts := (Scanner.accounts_start text).scan
  rw [← sameScan] at accounts
  exact ⟨_, rfl, accounts⟩

/-- The scanner reports the outermost comment that the end of the text leaves
open. -/
theorem openCommentOf?_eq_some_iff {text : Text} {report : OpenComment} :
    openCommentOf? text = some report ↔ LeavesOpen text report := by
  obtain ⟨scanned, reported, accounts⟩ := openCommentOf?_spec text
  obtain ⟨steps, reached⟩ := accounts.reached
  have since := accounts.since
  rw [List.append_nil] at reached since
  rw [reported, Scanner.openComment?_eq]
  split
  · next outside =>
      refine iff_of_false (by simp) ?_
      intro leaves
      exact absurd outside (Nat.ne_of_gt (leaves.inside reached))
  · next inside =>
      have leaves : LeavesOpen text ⟨scanned.openKind, scanned.openedAt⟩ :=
        ⟨scanned.lexer, since (Nat.pos_of_ne_zero inside)⟩
      constructor
      · intro same
        rwa [Option.some.inj same] at leaves
      · intro others
        rw [leaves.unique others]

/-- A comment is reported exactly if the lexer ends inside one. -/
theorem isSome_openCommentOf?_iff {text : Text} :
    (openCommentOf? text).isSome = true ↔
      ∃ steps after, Lexer.Reads {} text steps after [] ∧ 0 < after.depth := by
  obtain ⟨scanned, reported, accounts⟩ := openCommentOf?_spec text
  obtain ⟨steps, reached⟩ := accounts.reached
  rw [List.append_nil] at reached
  rw [reported, Scanner.openComment?_eq]
  constructor
  · intro found
    split at found
    · simp at found
    · next inside =>
        exact ⟨steps, scanned.lexer, reached, Nat.pos_of_ne_zero inside⟩
  · rintro ⟨others, after, reads, inside⟩
    obtain ⟨later, same⟩ := reached.through reads (Nat.le_refl 0)
    cases same with
    | done => rw [if_neg (Nat.ne_of_gt inside)]; rfl
    | step nonempty behind => exact absurd rfl nonempty

end SqlDump
