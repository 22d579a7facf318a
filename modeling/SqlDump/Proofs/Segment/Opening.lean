import SqlDump.Proofs.Guard.Reading
import SqlDump.Proofs.Segment.Document

/-!
# A guard at the start of a stream

The guard that a look at the start of a text finds is the first one that the
scanner finds.
-/

namespace SqlDump

namespace Scanner

variable {scanner : Scanner} {text inner rest : Text}

/-- Inside a guard the scanner gathers what the look ahead calls the content of
the guard. -/
theorem document_of_guardContent (lexer : Lexer) (same : scanner.lexer = lexer)
    (proper : lexer.Proper) (guarded : lexer.guarded = true)
    (found : lexer.guardContent? text = some (inner, rest)) :
    ∃ emptied : Scanner, emptied.Tracks rest ∧ emptied.held = [] ∧
      scanner.document text =
        (emptied.document rest).withGuard ⟨scanner.digits,
          scanner.gathered.reverse ++ inner⟩ := by
  fun_induction Lexer.guardContent? lexer text
    generalizing scanner inner rest with
  | case1 => simp at found
  | case2 => simp at found
  | case3 lexer head tail taken after =>
      rename_i decided closes
      subst same
      simp only [Option.some.injEq, Prod.mk.injEq] at found
      obtain ⟨rfl, rfl⟩ := found
      have stepEq : scanner.lexer.step true (head :: tail) = (.close, after) :=
        (Lexer.step_true_of_decided decided).trans (Prod.ext closes.1 rfl)
      have outcome := Lexer.outcome_of_step stepEq (by simp)
      obtain ⟨inside, afterEq, behind, split⟩ := outcome.close_spec
      have start : after = {} := by
        rw [afterEq]
        exact Lexer.closeOne_eq_start inside (afterEq ▸ closes.2)
      refine ⟨{ scanner with lexer := {}, gathered := [] },
        ⟨Lexer.proper_start, [], .done _ _⟩, rfl, ?_⟩
      rw [document_step stepEq (by simp), start]
      simp only [advance, guarded, true_and, if_true, List.append_nil,
        Step.consumed]
      rfl
  | case4 lexer head tail taken after decided =>
      rename_i stays ih
      subst same
      simp only [Option.map_eq_some_iff, Prod.mk.injEq] at found
      obtain ⟨⟨laterInner, laterRest⟩, laterFound, rfl, rfl⟩ := found
      have stepEq : scanner.lexer.step true (head :: tail) = (taken, after) :=
        Lexer.step_true_of_decided decided
      obtain ⟨nothing, lexerEq, digitsEq, gatheredEq, -, stillProper,
        stillGuarded⟩ :=
        advance_inGuard ((head :: tail).take taken.consumed) stepEq decided
          proper guarded stays
      obtain ⟨emptied, tracks, held, documentEq⟩ :=
        ih lexerEq stillProper stillGuarded laterFound
      refine ⟨emptied, tracks, held, ?_⟩
      rw [document_step stepEq decided, nothing, List.nil_append]
      refine documentEq.trans ?_
      rw [digitsEq, gatheredEq, List.reverse_append, List.reverse_reverse,
        List.append_assoc]

/-- Outside literals, comments and guards the scanner finds the guard that
begins the text, and goes on with what stands behind it. -/
theorem document_of_scan {guard : Guard} (start : scanner.lexer = {})
    (found : Guard.scan text = .complete guard rest) :
    ∃ behind : Document, behind.text = rest ∧
      scanner.document text = (behind.withGuard guard).withEarlier
        scanner.gathered.reverse := by
  obtain ⟨count, inside, opened, content, digitsEq⟩ := Guard.step_of_scan found
  have stepEq : scanner.lexer.step true text = (.openGuard count, inside) := by
    rw [start, Lexer.step_true_of_decided, opened]
    simp [opened]
  have outcome := Lexer.outcome_of_step stepEq (by simp)
  have proper := outcome.proper (start ▸ Lexer.proper_start)
  have guarded : inside.guarded = true := by
    rw [outcome.openGuard_spec.2.1]
    rfl
  let opening := scanner.advance (.openGuard count) inside (text.take count)
  obtain ⟨emptied, tracks, held, documentEq⟩ :=
    document_of_guardContent inside (show opening.1.lexer = inside from rfl)
      proper guarded content
  have textEq := (emptied.document_spec rest tracks).1
  rw [held, List.nil_append] at textEq
  have openingEq :
      (⟨opening.1.digits, opening.1.gathered.reverse ++ guard.inner⟩ : Guard) =
        guard := by
    have digits : opening.1.digits = guard.digits := digitsEq
    rw [digits]
    rfl
  refine ⟨emptied.document rest, textEq, ?_⟩
  cases text with
  | nil => simp [Lexer.step] at stepEq
  | cons head tail =>
      rw [document_step stepEq (by simp), ← openingEq, ← documentEq]
      exact ofSegments_textSegment_append scanner.gathered _

private theorem document_plains (scanner : Scanner) {plain : Text}
    (start : scanner.lexer = {})
    (noOpener : ∀ character ∈ plain, character ∉ Lexer.openers) (rest : Text) :
    ∃ moved : Scanner, moved.lexer = {} ∧
      moved.gathered = plain.reverse ++ scanner.gathered ∧
      scanner.document (plain ++ rest) = moved.document rest := by
  induction plain generalizing scanner with
  | nil => exact ⟨scanner, start, rfl, rfl⟩
  | cons head tail ih =>
      have top : scanner.lexer.atTopLevel = true :=
        start ▸ Lexer.atTopLevel_start
      have stepEq : scanner.lexer.step true (head :: (tail ++ rest)) =
          (.skip 1, scanner.lexer) :=
        Lexer.step_of_plain _ top (noOpener head (.head tail))
      let next := scanner.advance (.skip 1) scanner.lexer [head]
      obtain ⟨nothing, lexerEq, -, gatheredEq⟩ : next.2 = [] ∧
        next.1.lexer = scanner.lexer ∧
          next.1.digits = scanner.digits ∧
            next.1.gathered = [head] ++ scanner.gathered :=
        advance_gathers [head] (by simp) (by simp) (by simp)
      obtain ⟨moved, startsOver, gathered, documentEq⟩ :=
        ih next.1 (lexerEq.trans start)
        fun character member => noOpener character (.tail head member)
      refine ⟨moved, startsOver, ?_, ?_⟩
      · rw [gathered, gatheredEq]
        simp
      · rw [List.cons_append, document_step stepEq (by simp), ← documentEq]
        change Document.ofSegments (next.2 ++ _) = _
        rw [nothing]
        rfl

end Scanner

/-- What the text of a document begins with, up to an opener, it has in front of
its first guard. -/
theorem Document.lead_of_text {document : Document} {piece rest : Text}
    (noOpener : ∀ character ∈ piece, character ∉ Lexer.openers)
    (whole : document.text = piece ++ rest) :
    ∃ following, document.lead = piece ++ following ∧
      rest = Document.text ⟨following, document.blocks⟩ := by
  obtain ⟨lead, blocks⟩ := document
  rcases List.append_eq_append_iff.mp whole with
    ⟨missing, pieceEq, blocksEq⟩ | ⟨following, leadEq, restEq⟩
  · cases missing with
    | nil =>
        exact ⟨[], by simpa using pieceEq.symm,
          by simpa [text] using blocksEq.symm⟩
    | cons head missing =>
        cases blocks with
        | nil => simp at blocksEq
        | cons block blocks =>
            simp only [List.flatMap_cons, Guard.raw, guardMarker,
              List.cons_append, List.cons.injEq] at blocksEq
            have opener : head ∉ Lexer.openers := by
              apply noOpener head
              rw [pieceEq]
              exact List.mem_append_right lead (List.mem_cons_self ..)
            rw [← blocksEq.1] at opener
            exact absurd opener (by decide)
  · exact ⟨following, leadEq, restEq⟩

/-- The scanner finds a guard behind a text without literals, comments and
guards, and behind the guard the piece that is there. -/
theorem documentOf_of_scan {lead text piece rest : Text} {guard : Guard}
    (leadPlain : ∀ character ∈ lead, character ∉ Lexer.openers)
    (begins : Guard.scan text = .complete guard (piece ++ rest))
    (piecePlain : ∀ character ∈ piece, character ∉ Lexer.openers) :
    ∃ following blocks, documentOf (lead ++ text) =
        ⟨lead, (guard, piece ++ following) :: blocks⟩ ∧
      rest = Document.text ⟨following, blocks⟩ := by
  obtain ⟨moved, start, gathered, documentEq⟩ :=
    ({} : Scanner).document_plains rfl leadPlain text
  obtain ⟨behind, textEq, movedEq⟩ := Scanner.document_of_scan start begins
  obtain ⟨following, behindLead, restEq⟩ :=
    behind.lead_of_text piecePlain textEq
  refine ⟨following, behind.blocks, ?_, restEq⟩
  have whole : documentOf (lead ++ text) =
      ({} : Scanner).document (lead ++ text) := by
    rw [documentOf, segmentsOf_eq]
    rfl
  rw [whole, documentEq, movedEq, gathered, ← behindLead]
  simp [Document.withEarlier, Document.withGuard]

end SqlDump
