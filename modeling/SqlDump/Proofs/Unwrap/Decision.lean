import SqlDump.Proofs.Guard.Version
import SqlDump.Proofs.Segment.Block
import SqlDump.Proofs.Unwrap.Conservation

/-!
# Which guards are taken off

The number that the digits of a guard denote decides alone, however many digits
there are and however the stream is cut into chunks: below the threshold the
guard leaves without its markers, and otherwise it leaves as it came.  The
guards around it do not matter.
-/

namespace SqlDump

theorem Document.ofSegments_append (earlier later : List Segment)
    (guard : Guard) (line : Nat) :
    ofSegments (earlier ++ .guard guard line :: later) =
      ⟨(ofSegments earlier).lead, (ofSegments earlier).blocks ++
        (guard, (ofSegments later).lead) :: (ofSegments later).blocks⟩ := by
  induction earlier with
  | nil => rfl
  | cons segment segments ih =>
      rw [List.cons_append]
      cases segment with
      | text piece => rw [ofSegments, ih, ofSegments]
      | guard found opened => rw [ofSegments, ih, ofSegments]; rfl

/-- Behind the guard `rest` would follow.  The guard is freed: a terminator at
the start of the rest has moved to the freed text, and a line break that has
become redundant is gone with it. -/
inductive FreedInFront (guard : Guard) (rest : Text) : Text → Prop where
  | alone : FreedInFront guard rest (Unwrapper.strippedInner guard ++ rest)
  | terminated {gone behind : Text} (split : rest = ';' :: (gone ++ behind))
      (lineBreak : gone = [] ∨ gone = ['\n'] ∨ gone = ['\r', '\n']) :
      FreedInFront guard rest
        (Unwrapper.terminated (Unwrapper.strippedInner guard) ++ behind)

namespace Document

variable {threshold : Nat} {collapse : Collapse} {guard : Guard}
  {following : Text} {pieces : List Piece}

theorem Leaves.freedInFront
    (leaves : Leaves threshold collapse guard following pieces)
    (unwraps : shouldUnwrap guard.version threshold = true) (rest : Text) :
    FreedInFront guard (following ++ rest) (results pieces ++ rest) := by
  cases leaves with
  | kept following keeps => simp [unwraps] at keeps
  | freed following unwraps noTerminator =>
      have stands : FreedInFront guard (following ++ rest) _ := .alone
      simpa [Piece.result] using stands
  | terminated gone kept unwraps redundant =>
      have lineBreak : gone = [] ∨ gone = ['\n'] ∨ gone = ['\r', '\n'] :=
        (redundant_cases redundant).imp id (Or.imp And.left And.left)
      have split : ';' :: (gone ++ kept) ++ rest =
          ';' :: (gone ++ (kept ++ rest)) := by simp
      have moved : FreedInFront guard (';' :: (gone ++ kept) ++ rest) _ :=
        .terminated split lineBreak
      simpa [Piece.result] using moved

end Document

namespace Unwrapper

/-- The result for a stream splits at a guard. -/
theorem unwrap_at_guard (threshold : Nat) (collapse : Collapse)
    (earlier later : List Segment) (guard : Guard) (line : Nat) :
    let unwrapper : Unwrapper :=
      { threshold := threshold, collapse := collapse }
    (unwrapper.unwrap (earlier ++ .guard guard line :: later)).2 =
      (unwrapper.unwrap earlier).2 ++
        (results (Document.blockPieces threshold collapse
            (guard, (Document.ofSegments later).lead)) ++
          results ((Document.ofSegments later).blocks.flatMap
            (Document.blockPieces threshold collapse))) := by
  dsimp only
  rw [unwrap_eq_results, unwrap_eq_results, Document.ofSegments_append,
    Document.pieces, Document.pieces, List.flatMap_append, List.flatMap_cons]
  simp

theorem unwrap_pieces (threshold : Nat) (collapse : Collapse)
    (segments : List Segment) :
    (unwrap { threshold := threshold, collapse := collapse } segments).2 =
      (Document.ofSegments segments).lead ++
        results ((Document.ofSegments segments).blocks.flatMap
          (Document.blockPieces threshold collapse)) := by
  rw [unwrap_eq_results]
  rfl

private theorem freed_of_below {threshold : Nat} (collapse : Collapse)
    (earlier later : List Segment) {guard : Guard} (line : Nat)
    (below : shouldUnwrap guard.version threshold = true) :
    let unwrapper : Unwrapper :=
      { threshold := threshold, collapse := collapse }
    ∃ freed, FreedInFront guard (unwrapper.unwrap later).2 freed ∧
      (unwrapper.unwrap (earlier ++ .guard guard line :: later)).2 =
        (unwrapper.unwrap earlier).2 ++ freed := by
  have leaves : Document.Leaves threshold collapse guard _ _ :=
    Document.leaves_blockPieces guard (Document.ofSegments later).lead
  refine ⟨_, ?_, unwrap_at_guard threshold collapse earlier later guard line⟩
  rw [unwrap_pieces]
  exact leaves.freedInFront below _

private theorem copied_of_notBelow {threshold : Nat} (collapse : Collapse)
    (earlier later : List Segment) {guard : Guard} (line : Nat)
    (notBelow : shouldUnwrap guard.version threshold = false) :
    let unwrapper : Unwrapper :=
      { threshold := threshold, collapse := collapse }
    (unwrapper.unwrap (earlier ++ .guard guard line :: later)).2 =
      (unwrapper.unwrap earlier).2 ++
      (guard.raw ++ (unwrapper.unwrap later).2) := by
  have leaves : Document.Leaves threshold collapse guard _ _ :=
    Document.leaves_blockPieces guard (Document.ofSegments later).lead
  dsimp only
  rw [unwrap_at_guard, leaves.results_of_stays notBelow,
    unwrap_pieces _ _ later, List.append_assoc]

/-- The counters of a stream are those of the guards around a guard and the
guard's own. -/
theorem counts_at_guard (threshold : Nat) (collapse : Collapse)
    (earlier later : List Segment) (guard : Guard) (line : Nat) :
    let unwrapper : Unwrapper :=
      { threshold := threshold, collapse := collapse }
    let freed := if shouldUnwrap guard.version threshold then 1 else 0
    (unwrapper.unwrap (earlier ++ .guard guard line :: later)).1.unwrapped =
        (unwrapper.unwrap earlier).1.unwrapped + freed +
        (unwrapper.unwrap later).1.unwrapped ∧
      (unwrapper.unwrap (earlier ++ .guard guard line :: later)).1.kept =
        (unwrapper.unwrap earlier).1.kept + (1 - freed) +
        (unwrapper.unwrap later).1.kept := by
  intro unwrapper freed
  have unwrapped (segments : List Segment) :
      (unwrapper.unwrap segments).1.unwrapped =
        segments.countP (Segment.below threshold) :=
    (unwrapper.acceptAll_count segments).trans (Nat.zero_add _)
  have guards (segments : List Segment) :
      (unwrapper.unwrap segments).1.unwrapped +
          (unwrapper.unwrap segments).1.kept =
        segments.countP Segment.isGuard :=
    (unwrapper.acceptAll_guards segments).trans (Nat.zero_add _)
  have all := guards (earlier ++ .guard guard line :: later)
  have before := guards earlier
  have behind := guards later
  have below : (Segment.guard guard line).below threshold =
      shouldUnwrap guard.version threshold := rfl
  have isGuard : (Segment.guard guard line).isGuard = true := rfl
  rw [List.countP_append, List.countP_cons, isGuard, if_pos rfl] at all
  have total :
      (unwrapper.unwrap (earlier ++ .guard guard line :: later)).1.unwrapped =
        (unwrapper.unwrap earlier).1.unwrapped + freed +
        (unwrapper.unwrap later).1.unwrapped := by
    rw [unwrapped, unwrapped, unwrapped, List.countP_append, List.countP_cons,
      below]
    omega
  have atMostOne : freed ≤ 1 := by
    dsimp only [freed]
    split <;> omega
  exact ⟨total, by omega⟩

end Unwrapper

/-- A guard in code is reported with the number its digits denote, or the
largest of 32 bits where the number has no room, and it is taken off exactly if
the number lies below the threshold. -/
theorem unwraps_iff_number_below (chunks : List Text) (before rest : Text)
    (guard : Guard) (whole : chunks.flatten = before ++ (guard.raw ++ rest))
    (inCode : ({} : Lexer).inCodeAt chunks.flatten before.length = true)
    (begins : guard.Begins (guard.raw ++ rest) rest) :
    let number := Nat.ofDigits 10 (guard.digits.reverse.map digitValue)
    guard.version = min number (2 ^ 32 - 1) ∧
      guard.version = (readDigits? guard.digits).getD (2 ^ 32 - 1) ∧
      Guard.scan (guard.raw ++ rest) = .complete guard rest ∧
      ∃ earlier later,
        Scanner.segmentsIn chunks =
            earlier ++ .guard guard (1 + before.count '\n') :: later ∧
          earlier.flatMap Segment.raw = before ∧
          later.flatMap Segment.raw = rest ∧
          ∀ threshold < 2 ^ 32, ∀ collapse : Collapse,
            let unwrapper : Unwrapper :=
              { threshold := threshold, collapse := collapse }
            let all := unwrapper.unwrap (Scanner.segmentsIn chunks)
            if number < threshold then
              (∃ freed, FreedInFront guard (unwrapper.unwrap later).2 freed ∧
                  all.2 = (unwrapper.unwrap earlier).2 ++ freed) ∧
                all.1.unwrapped = (unwrapper.unwrap earlier).1.unwrapped + 1 +
                  (unwrapper.unwrap later).1.unwrapped ∧
                all.1.kept = (unwrapper.unwrap earlier).1.kept +
                  (unwrapper.unwrap later).1.kept
            else
              all.2 = (unwrapper.unwrap earlier).2 ++
                  (guard.raw ++ (unwrapper.unwrap later).2) ∧
                all.1.unwrapped = (unwrapper.unwrap earlier).1.unwrapped +
                  (unwrapper.unwrap later).1.unwrapped ∧
                all.1.kept =
                  (unwrapper.unwrap earlier).1.kept + 1 +
                  (unwrapper.unwrap later).1.kept := by
  intro number
  have valueEq : digitsValue guard.digits = number :=
    digitsValue_eq_ofDigits guard.digits
  refine ⟨?_, versionOfDigits_eq_getD guard.digits, begins.scan_eq, ?_⟩
  · rw [← valueEq]
    rfl
  obtain ⟨earlier, later, split, earlierRaw, laterRaw⟩ :=
    Scanner.segmentsIn_split chunks whole inCode begins
  refine ⟨earlier, later, split, earlierRaw, laterRaw, ?_⟩
  intro threshold fits collapse unwrapper all
  have decides : shouldUnwrap guard.version threshold = true ↔
      number < threshold := by
    rw [← valueEq]
    exact shouldUnwrap_iff (Nat.le_of_lt_succ fits) guard.digits
  have counts :=
    Unwrapper.counts_at_guard threshold collapse earlier later guard
    (1 + before.count '\n')
  rw [← split] at counts
  split
  · next below =>
      have unwraps := decides.mpr below
      rw [unwraps] at counts
      have freed := Unwrapper.freed_of_below collapse earlier later
        (1 + before.count '\n') unwraps
      rw [← split] at freed
      exact ⟨freed, counts⟩
  · next notBelow =>
      have stays := Bool.eq_false_iff.mpr (mt decides.mp notBelow)
      rw [stays] at counts
      have copied :=
        Unwrapper.copied_of_notBelow collapse earlier later
          (1 + before.count '\n') stays
      rw [← split] at copied
      exact ⟨copied, counts⟩

/-- The digits come in two chunks.  Read into 32 bits that wrap around, they
would denote five. -/
def wideDump : List Text :=
  ["SELECT '/*!1 x*/';\n/*!000042949".toList, "67301 SET a=1 */;\n".toList]

theorem unwraps_iff_number_below_wide :
    let before := "SELECT '/*!1 x*/';\n".toList
    let guard : Guard := ⟨"00004294967301".toList, " SET a=1 ".toList⟩
    let rest := ";\n".toList
    wideDump.flatten = before ++ (guard.raw ++ rest) ∧
      ({} : Lexer).inCodeAt wideDump.flatten before.length = true ∧
      guard.Begins (guard.raw ++ rest) rest ∧ defaultThreshold < 2 ^ 32 ∧
      guard.version = 2 ^ 32 - 1 ∧
      ∃ earlier later,
        Scanner.segmentsIn wideDump = earlier ++ .guard guard 2 :: later ∧
          (Unwrapper.unwrap {} (Scanner.segmentsIn wideDump)).2 =
            (Unwrapper.unwrap {} earlier).2 ++
            (guard.raw ++ (Unwrapper.unwrap {} later).2) := by
  intro before guard rest
  have whole : wideDump.flatten = before ++ (guard.raw ++ rest) := by
    decide +kernel
  have inCode : ({} : Lexer).inCodeAt wideDump.flatten before.length =
      true := by decide +kernel
  have begins : guard.Begins (guard.raw ++ rest) rest :=
    Guard.begins_of_scan (by decide +kernel)
  obtain ⟨version, -, -, earlier, later, split, -, -, decided⟩ :=
    unwraps_iff_number_below wideDump before rest guard whole inCode begins
  have fits : defaultThreshold < 2 ^ 32 := by decide
  have notBelow : ¬Nat.ofDigits 10 (guard.digits.reverse.map digitValue) <
      defaultThreshold := by
    decide +kernel
  have copied := decided defaultThreshold fits .any
  rw [if_neg notBelow] at copied
  have largest : guard.version = 2 ^ 32 - 1 := version.trans (by decide +kernel)
  exact ⟨whole, inCode, begins, fits, largest, earlier, later, split, copied.1⟩

end SqlDump
