import SqlDump.Proofs.Lexer.Line
import SqlDump.Proofs.Segment.Block
import SqlDump.Proofs.Statement.Chunks

/-!
# Scanning whole lines

No marker goes on behind a line break, so a scanner never waits at the end of a
line.  If the line ends in code, the scanner has found what it finds in the line
alone, and holds nothing back.
-/

namespace SqlDump

variable {text line : Text}

namespace Lexer

private theorem not_mem_of_waits {lexer : Lexer} (waits : lexer.Waits text) :
    '\n' ∉ text := by
  cases waits with
  | star inside => decide
  | slash code => decide
  | opening top => decide
  | dash code => decide
  | dashes code => decide
  | marker top digits allDigits =>
      intro member
      have inDigits : '\n' ∈ digits := by simpa using member
      rw [← allDigits] at inDigits
      exact absurd (List.all_eq_true.mp List.all_takeWhile _ inDigits)
        (by decide)

/-- In front of a line break no step waits for more. -/
theorem step_false_eq (broken : '\n' ∈ text) (lexer : Lexer) :
    lexer.step false text = lexer.step true text := by
  have decided : (lexer.step false text).1 ≠ .needMore := fun undecided =>
    not_mem_of_waits (waits_of_needMore (List.ne_nil_of_mem broken) undecided)
      broken
  exact (step_true_of_decided decided).symm

end Lexer

namespace Scanner

variable {scanner : Scanner}

/-- At the end of a line a scan that expects more has found what it finds at the
end of the stream. -/
theorem scan_false_eq (ends : endsLine text = true) :
    scanner.scan false text = scanner.scan true text := by
  induction scanner, text using scan_induction true with
  | nil scanner => rw [scan_nil, scan_nil]
  | wait scanner head tail waits =>
      exact absurd waits (Lexer.step_true_ne_needMore head tail)
  | step scanner head tail taken after stepEq decided ih =>
      have broken := mem_of_endsLine ends (List.cons_ne_nil head tail)
      rw [scan_of_decided scanner ((Lexer.step_false_eq broken _).trans stepEq)
        decided,
        scan_of_decided scanner stepEq decided, ih (endsLine_drop ends _)]

/-- Two scanners that differ at most in the lines that they count. -/
structure Same (first second : Scanner) : Prop where
  lexer : first.lexer = second.lexer
  gathered : first.gathered = second.gathered
  digits : first.lexer.guarded = true → first.digits = second.digits

private theorem ofSegments_append_congr (earlier : List Segment)
    {first second : List Segment}
    (same : Document.ofSegments first = Document.ofSegments second) :
    Document.ofSegments (earlier ++ first) =
      Document.ofSegments (earlier ++ second) := by
  induction earlier with
  | nil => exact same
  | cons segment earlier ih =>
      cases segment <;> simp only [List.cons_append, Document.ofSegments, ih]

theorem Same.advance {first second : Scanner} {input : Text} {taken : Step}
    {after : Lexer} (same : Same first second)
    (outcome : Lexer.Outcome first.lexer input taken after) (piece : Text) :
    Same (first.advance taken after piece).1
      (second.advance taken after piece).1 ∧
      ∀ later laterSecond, Document.ofSegments later =
        Document.ofSegments laterSecond →
        Document.ofSegments ((first.advance taken after piece).2 ++ later) =
          Document.ofSegments ((second.advance taken after piece).2 ++
            laterSecond) := by
  obtain ⟨sameLexer, sameGathered, sameDigits⟩ := same
  have digits (noOpening : ∀ count,
      taken ≠ .openGuard count) (guarded : after.guarded = true) :
      first.digits = second.digits := by
    rcases outcome.guarded guarded with inside | ⟨count, opens⟩
    · exact sameDigits inside
    · exact absurd opens (noOpening count)
  unfold Scanner.advance
  cases taken with
  | needMore => exact ⟨⟨rfl, sameGathered, digits (by simp)⟩, fun _ _ => id⟩
  | openGuard count =>
      rw [sameGathered]
      exact ⟨⟨rfl, rfl, fun _ => rfl⟩, fun _ _ => ofSegments_append_congr _⟩
  | openPlain =>
      rw [sameLexer]
      dsimp only
      split <;>
      · refine ⟨⟨rfl, ?_, digits (by simp)⟩, fun _ _ => id⟩
        simp only [gather, sameGathered]
  | close =>
      rw [sameLexer]
      dsimp only
      split
      · next closes =>
          have digitsEq := sameDigits (sameLexer ▸ closes.1)
          refine ⟨⟨rfl, rfl, fun _ => digitsEq⟩,
            fun later laterSecond same => ?_⟩
          rw [sameGathered, digitsEq]
          simp only [List.singleton_append, Document.ofSegments, same]
      · refine ⟨⟨rfl, ?_, digits (by simp)⟩, fun _ _ => id⟩
        simp only [gather, sameGathered]
  | skip count =>
      dsimp only
      split <;>
      · refine ⟨⟨rfl, ?_, digits (by simp)⟩, fun _ _ => id⟩
        simp only [gather, sameGathered]

theorem Same.document {first second : Scanner} (same : Same first second)
    (text : Text) (proper : first.lexer.Proper) :
    first.document text = second.document text := by
  induction first, text using scan_induction true generalizing second with
  | nil first =>
      rw [document_nil proper, document_nil (same.lexer ▸ proper), held, held,
        ← same.lexer, same.gathered]
      split
      · next guarded => rw [same.digits guarded]
      · rfl
  | wait first head tail waits =>
      exact absurd waits (Lexer.step_true_ne_needMore head tail)
  | step first head tail taken after stepEq decided ih =>
      have outcome := Lexer.outcome_of_step stepEq decided
      obtain ⟨sameNext, joins⟩ :=
        same.advance outcome ((head :: tail).take taken.consumed)
      have later :=
        ih sameNext (by rw [advance_lexer]; exact outcome.proper proper)
      rw [document_step stepEq decided,
        document_step (same.lexer ▸ stepEq) decided]
      exact joins _ _ later

/-- The scanner holds nothing back, and a guard could begin. -/
structure Rests (scanner : Scanner) : Prop where
  lexer : scanner.lexer = {}
  ahead : scanner.ahead = []
  gathered : scanner.gathered = []

theorem Rests.feed (rests : scanner.Rests) (ends : endsLine line = true)
    (closed : ({} : Lexer).inCodeAt line line.length = true) :
    Document.ofSegments (scanner.feed line).2 = documentOf line ∧
      (scanner.feed line).1.Rests := by
  obtain ⟨steps, reads⟩ : ∃ steps, Lexer.Reads {} line steps {} [] := by
    rcases endsLine_iff.mp ends with rfl | ⟨front, rfl⟩
    · exact ⟨[], .done _ _⟩
    · obtain ⟨steps, after, -, reads⟩ := Lexer.reads_break {} front
      have top := (reads []).inCodeAt
      rw [List.length_nil, Nat.sub_zero, closed] at top
      have start :=
        Lexer.eq_start_of_atTopLevel ((reads []).proper Lexer.proper_start)
          top.symm
      exact ⟨steps, start ▸ reads []⟩
  obtain ⟨moved, segments, movedLexer, scanEq, -⟩ :=
    scan_of_reads reads scanner rests.lexer (rests.lexer ▸ Lexer.proper_start)
  have feedEq : scanner.feed line = scanner.scan true line := by
    rw [Scanner.feed, rests.ahead, List.nil_append, scan_false_eq ends]
  have released : (moved.scan true []).1 = { moved with ahead := [], gathered :=
      [] } := by
    rw [scan_nil]
    simp [release, withAhead, movedLexer]
  have nothingOpen :
      ({ moved with ahead := [], gathered := [] } : Scanner).openGuard =
        [] := by
    simp [openGuard, mode, movedLexer]
  have document : scanner.document line =
      Document.ofSegments (scanner.feed line).2 := by
    rw [Scanner.document, feedEq, scanEq, released, nothingOpen,
      List.append_nil]
  constructor
  · have same : Same scanner {} :=
      ⟨rests.lexer, rests.gathered,
        fun guarded => by simp [rests.lexer] at guarded⟩
    rw [← document, same.document line (rests.lexer ▸ Lexer.proper_start),
      documentOf, segmentsOf_eq]
    rfl
  · rw [feedEq, scanEq, released]
    exact ⟨movedLexer, rfl, rfl⟩

end Scanner

end SqlDump
