import SqlDump.Proofs.Lexer.Reading
import SqlDump.Proofs.Segment.Cuts

/-!
# A stream as guards and the text between them

The scanner loses nothing: its segments join to the text that it read.  Every
guard it finds begins and ends in top-level code, when the text is lexed from
its start.
-/

namespace SqlDump

/-- What the segment was read from. -/
def Segment.raw : Segment → Text
  | .text piece => piece
  | .guard found _ => found.raw

/-- The text in front of the first guard, and the guards, each with the text
behind it. -/
structure Document where
  lead : Text
  blocks : List (Guard × Text)
deriving DecidableEq, Repr

namespace Document

def text (document : Document) : Text :=
  document.lead ++ document.blocks.flatMap fun block => block.1.raw ++ block.2

def ofSegments : List Segment → Document
  | [] => ⟨[], []⟩
  | .text piece :: segments =>
      let rest := ofSegments segments
      ⟨piece ++ rest.lead, rest.blocks⟩
  | .guard guard _ :: segments =>
      let rest := ofSegments segments
      ⟨[], (guard, rest.lead) :: rest.blocks⟩

/-- Lexed from its start, the text is in top-level code at both ends of every
guard. -/
inductive Lexed : Document → Prop where
  | lead (text : Text) : Lexed ⟨text, []⟩
  | block {lead following : Text} {guard : Guard} {blocks : List (Guard × Text)}
      {toGuard throughGuard : List Step}
      (reached :
        Lexer.Reads {} (Document.text ⟨lead, (guard, following) :: blocks⟩)
          toGuard {} (guard.raw ++ Document.text ⟨following, blocks⟩))
      (crossed : Lexer.Reads {} (guard.raw ++ Document.text ⟨following, blocks⟩)
          throughGuard {} (Document.text ⟨following, blocks⟩))
      (behind : Lexed ⟨following, blocks⟩) :
      Lexed ⟨lead, (guard, following) :: blocks⟩

def withEarlier (document : Document) (earlier : Text) : Document :=
  { document with lead := earlier ++ document.lead }

@[simp] theorem text_withEarlier (document : Document) (earlier : Text) :
    (document.withEarlier earlier).text = earlier ++ document.text := by
  simp [text, withEarlier]

def withGuard (document : Document) (guard : Guard) : Document :=
  ⟨[], (guard, document.lead) :: document.blocks⟩

@[simp] theorem text_withGuard (document : Document) (guard : Guard) :
    (document.withGuard guard).text = guard.raw ++ document.text := by
  simp [text, withGuard]

theorem text_ofSegments (segments : List Segment) :
    (ofSegments segments).text = segments.flatMap Segment.raw := by
  induction segments with
  | nil => rfl
  | cons segment segments ih =>
      rw [List.flatMap_cons, ← ih]
      cases segment with
      | text piece => exact text_withEarlier (ofSegments segments) piece
      | guard guard line => exact text_withGuard (ofSegments segments) guard

theorem Lexed.withEarlier {document : Document} {earlier : Text}
    {steps : List Step} (lexed : document.Lexed)
    (reached : Lexer.Reads {} (earlier ++ document.text) steps {}
        document.text) :
    (document.withEarlier earlier).Lexed := by
  cases lexed with
  | lead text => exact .lead (earlier ++ text)
  | @block lead following guard blocks toGuard throughGuard reachedGuard
      crossed behind =>
      have whole := reached.trans reachedGuard
      rw [← text_withEarlier] at whole
      exact .block whole crossed behind

theorem Lexed.withGuard {document : Document} {guard : Guard}
    {steps : List Step} (lexed : document.Lexed)
    (crossed : Lexer.Reads {} (guard.raw ++ document.text) steps {}
        document.text) :
    (document.withGuard guard).Lexed := by
  have reached :
      Lexer.Reads {} (text ⟨[], (guard, document.lead) :: document.blocks⟩) []
        {}
      (guard.raw ++ document.text) := by
    rw [show text ⟨[], (guard, document.lead) :: document.blocks⟩ = guard.raw ++
      document.text from document.text_withGuard guard]
    exact .done _ _
  exact .block reached crossed lexed

end Document

namespace Scanner

/-- The text that was read but has not left. -/
def held (scanner : Scanner) : Text :=
  if scanner.lexer.guarded then
    guardMarker ++ scanner.digits ++ scanner.gathered.reverse
  else scanner.gathered.reverse

/-- What leaves at the end of the stream if it leaves an open guard. -/
def openGuard (scanner : Scanner) : List Segment :=
  if scanner.mode = .inGuard then
    [.text (guardMarker ++ scanner.digits ++ scanner.gathered.reverse)]
  else []

/-- The document that a scanner gives for the rest of the stream. -/
def document (scanner : Scanner) (rest : Text) : Document :=
  .ofSegments
    ((scanner.scan true rest).2 ++ (scanner.scan true rest).1.openGuard)

/-- The state of the lexer is the one behind the text that is held. -/
structure Tracks (scanner : Scanner) (rest : Text) : Prop where
  proper : scanner.lexer.Proper
  read : ∃ steps, Lexer.Reads {} (scanner.held ++ rest) steps scanner.lexer rest

variable {scanner : Scanner} {head : Char} {tail : Text} {taken : Step}
  {after : Lexer}

theorem ofSegments_textSegment_append (reversed : Text)
    (segments : List Segment) :
    Document.ofSegments (textSegment reversed ++ segments) =
      (Document.ofSegments segments).withEarlier reversed.reverse := by
  unfold textSegment
  split
  · next empty => simp [empty, Document.withEarlier]
  · simp [Document.ofSegments, Document.withEarlier]

theorem document_nil (proper : scanner.lexer.Proper) :
    scanner.document [] = ⟨scanner.held, []⟩ := by
  unfold document
  rw [scan_nil]
  cases guarded : scanner.lexer.guarded with
  | true =>
      have inside : scanner.lexer.depth ≠ 0 := Nat.ne_of_gt (proper guarded)
      simp [release, withAhead, held, openGuard, mode, guarded, inside,
        Document.ofSegments]
  | false =>
      have outside :
          ({ scanner.withAhead [] with gathered := [] } : Scanner).openGuard =
            [] := by
        simp only [openGuard, mode, withAhead, guarded, Bool.false_eq_true,
          if_false]
        split <;> simp
      have released : (scanner.withAhead []).release =
          ({ scanner.withAhead [] with gathered := [] },
            textSegment scanner.gathered) := by
        simp [release, withAhead, guarded]
      rw [released, outside, ofSegments_textSegment_append]
      simp [Document.ofSegments, Document.withEarlier, held, guarded]

theorem document_step
    (stepEq : scanner.lexer.step true (head :: tail) = (taken, after))
    (decided : taken ≠ .needMore) :
    scanner.document (head :: tail) =
      .ofSegments
        ((scanner.advance taken after ((head :: tail).take taken.consumed)).2 ++
        (((scanner.advance taken after
          ((head :: tail).take taken.consumed)).1.scan true
            ((head :: tail).drop taken.consumed)).2 ++
          ((scanner.advance taken after
            ((head :: tail).take taken.consumed)).1.scan true
            ((head :: tail).drop taken.consumed)).1.openGuard)) := by
  rw [document, scan_of_decided scanner stepEq decided, List.append_assoc]

theorem advance_gathers (piece : Text)
    (noOpening : ∀ count, taken ≠ .openGuard count)
    (noClosing : ¬(taken = .close ∧ scanner.lexer.guarded = true ∧
      after.depth = 0)) (decided : taken ≠ .needMore) :
    (scanner.advance taken after piece).2 = [] ∧
      (scanner.advance taken after piece).1.lexer = after ∧
      (scanner.advance taken after piece).1.digits = scanner.digits ∧
      (scanner.advance taken after piece).1.gathered = piece.reverse ++
        scanner.gathered := by
  unfold advance
  cases taken with
  | needMore => exact absurd rfl decided
  | openGuard count => exact absurd rfl (noOpening count)
  | openPlain => dsimp only; split <;> simp [gather]
  | close =>
      have stays : ¬(scanner.lexer.guarded = true ∧ after.depth = 0) := by
        simpa using noClosing
      dsimp only
      rw [if_neg stays]
      simp [gather]
  | skip count => dsimp only; split <;> simp [gather]

theorem guarded_of_gathers {input : Text}
    (outcome : Lexer.Outcome scanner.lexer input taken after)
    (noOpening : ∀ count, taken ≠ .openGuard count)
    (noClosing : ¬(taken = .close ∧ scanner.lexer.guarded = true ∧
      after.depth = 0)) :
    after.guarded = scanner.lexer.guarded := by
  cases outcome with
  | character head tail => rfl
  | dashes code tail => rfl
  | marker top tail => rfl
  | openGuard top digits tail nonempty allDigits =>
      exact absurd rfl (noOpening _)
  | openPlain code tail => rfl
  | close inside tail =>
      cases guarded : scanner.lexer.guarded with
      | false => simp [Lexer.closeOne, guarded]
      | true =>
          have deeper : scanner.lexer.depth ≠ 1 := by
            intro one
            exact noClosing ⟨rfl, guarded, by simp [Lexer.closeOne, one]⟩
          simp [Lexer.closeOne, guarded, deeper]

/-- Inside a guard every step but the one that closes it adds to what is
held. -/
theorem advance_inGuard {atEnd : Bool} {input : Text} (piece : Text)
    (stepEq : scanner.lexer.step atEnd input = (taken, after))
    (decided : taken ≠ .needMore) (proper : scanner.lexer.Proper)
    (guarded : scanner.lexer.guarded = true)
    (stays : ¬(taken = .close ∧ after.depth = 0)) :
    (scanner.advance taken after piece).2 = [] ∧
      (scanner.advance taken after piece).1.lexer = after ∧
      (scanner.advance taken after piece).1.digits = scanner.digits ∧
      (scanner.advance taken after piece).1.gathered = piece.reverse ++
        scanner.gathered ∧
      (scanner.advance taken after piece).1.openedAt = scanner.openedAt ∧
      after.Proper ∧ after.guarded = true := by
  have outcome := Lexer.outcome_of_step stepEq decided
  have inside : scanner.lexer.depth ≠ 0 := Nat.ne_of_gt (proper guarded)
  have noOpening : ∀ count, taken ≠ .openGuard count := by
    intro count opens
    rw [opens] at outcome
    have top := outcome.openGuard_spec.1
    simp only [Lexer.atTopLevel, Bool.and_eq_true, beq_iff_eq] at top
    exact inside top.1
  have noClosing :
      ¬(taken = .close ∧ scanner.lexer.guarded = true ∧ after.depth = 0) :=
    fun closes => stays ⟨closes.1, closes.2.2⟩
  obtain ⟨nothing, lexerEq, digitsEq, gatheredEq⟩ :=
    advance_gathers piece noOpening noClosing decided
  refine ⟨nothing, lexerEq, digitsEq, gatheredEq, ?_, outcome.proper proper,
    (guarded_of_gathers outcome noOpening noClosing).trans guarded⟩
  unfold advance
  cases taken with
  | needMore => rfl
  | openGuard count => exact absurd rfl (noOpening count)
  | openPlain => simp [inside, gather]
  | close => dsimp only; split <;> rfl
  | skip count => dsimp only; split <;> rfl

/-- What the scanner gives from here on joins to what it holds and the rest, and
its guards lie in code. -/
def Gives (scanner : Scanner) (rest : Text) : Prop :=
  (scanner.document rest).text = scanner.held ++ rest ∧
  (scanner.document rest).Lexed

private theorem gives_openGuard {digits behind : Text} {count : Nat}
    (tracks : scanner.Tracks (guardMarker ++ digits ++ behind))
    (start : scanner.lexer = {})
    (opens : scanner.lexer.Reads (guardMarker ++ digits ++ behind)
        [.openGuard count] scanner.lexer.enterGuard behind)
    (later :
      (scanner.advance (.openGuard count) scanner.lexer.enterGuard
        (guardMarker ++ digits)).1.Tracks behind →
      (scanner.advance (.openGuard count) scanner.lexer.enterGuard
        (guardMarker ++ digits)).1.Gives behind) :
    (Document.withEarlier
      ((scanner.advance (.openGuard count) scanner.lexer.enterGuard
        (guardMarker ++ digits)).1.document behind)
          scanner.gathered.reverse).text =
        scanner.held ++ (guardMarker ++ digits ++ behind) ∧
      (Document.withEarlier
        ((scanner.advance (.openGuard count) scanner.lexer.enterGuard
        (guardMarker ++ digits)).1.document behind)
          scanner.gathered.reverse).Lexed := by
  have heldEq : scanner.held = scanner.gathered.reverse := by simp [held, start]
  have heldLater : (scanner.advance (.openGuard count) scanner.lexer.enterGuard
      (guardMarker ++ digits)).1.held = guardMarker ++ digits := by
    simp [held, advance, Lexer.enterGuard, guardMarker]
  rw [start] at opens
  obtain ⟨text, lexed⟩ := later
    ⟨fun _ => Nat.one_pos, _, by
      rw [heldLater, start]
      exact opens⟩
  obtain ⟨steps, reached⟩ := tracks.read
  rw [heldLater] at text
  rw [start, heldEq, ← text] at reached
  refine ⟨?_, lexed.withEarlier reached⟩
  rw [Document.text_withEarlier, text, heldEq]

private theorem gives_close {behind : Text}
    (tracks : scanner.Tracks (closingMarker ++ behind))
    (guarded : scanner.lexer.guarded = true)
    (closes : scanner.lexer.Reads (closingMarker ++ behind) [.close] {} behind)
    (later : (scanner.advance .close {} closingMarker).1.Tracks behind →
      (scanner.advance .close {} closingMarker).1.Gives behind) :
    (Document.withGuard
      ((scanner.advance .close {} closingMarker).1.document behind)
        ⟨scanner.digits, scanner.gathered.reverse⟩).text =
        scanner.held ++ (closingMarker ++ behind) ∧
      (Document.withGuard
        ((scanner.advance .close {} closingMarker).1.document behind)
        ⟨scanner.digits, scanner.gathered.reverse⟩).Lexed := by
  have emptied : (scanner.advance .close {} closingMarker).1 =
      { scanner with lexer := {}, gathered := [] } := by
    simp [advance, guarded]
  rw [emptied] at later ⊢
  obtain ⟨text, lexed⟩ := later ⟨Lexer.proper_start, _, .done _ _⟩
  change _ = behind at text
  obtain ⟨steps, reached⟩ := tracks.read
  have raw : scanner.held ++ (closingMarker ++ behind) =
      (⟨scanner.digits, scanner.gathered.reverse⟩ : Guard).raw ++ behind := by
    simp [held, guarded, Guard.raw]
  have crossed := reached.trans closes
  rw [raw, ← text] at crossed
  refine ⟨?_, lexed.withGuard crossed⟩
  rw [raw, Document.text_withGuard, text]

/-- What a scanner gives joins to what it held and read, and its guards lie in
code. -/
theorem document_spec (scanner : Scanner) (rest : Text)
    (tracks : scanner.Tracks rest) :
    scanner.Gives rest := by
  induction scanner, rest using scan_induction true with
  | nil scanner =>
      rw [Gives, document_nil tracks.proper]
      exact ⟨by simp [Document.text], .lead _⟩
  | wait scanner head tail waits =>
      exact absurd waits (Lexer.step_true_ne_needMore head tail)
  | step scanner head tail taken after stepEq decided ih =>
      have outcome := Lexer.outcome_of_step stepEq decided
      have proper := outcome.proper tracks.proper
      have readStep := Lexer.Reads.of_decided stepEq decided
      have inputEq := List.take_append_drop taken.consumed (head :: tail)
      rw [Gives, document_step stepEq decided]
      generalize pieceEq : (head :: tail).take taken.consumed = piece at *
      generalize behindEq : (head :: tail).drop taken.consumed = behind at *
      by_cases opening : ∃ count, taken = .openGuard count
      · obtain ⟨count, rfl⟩ := opening
        obtain ⟨top, rfl, digits, later, split, -, -, rfl⟩ :=
          outcome.openGuard_spec
        have pieceIs : piece = guardMarker ++ digits := by
          rw [← pieceEq, split, ← List.append_assoc]
          exact List.take_left' (by simp [Step.consumed])
        subst pieceIs
        rw [← inputEq] at tracks readStep ⊢
        rw [show
          (scanner.advance (.openGuard (guardMarker.length + digits.length))
            scanner.lexer.enterGuard (guardMarker ++ digits)).2 =
            textSegment scanner.gathered from rfl,
          ofSegments_textSegment_append]
        exact gives_openGuard tracks
          (Lexer.eq_start_of_atTopLevel tracks.proper top) readStep ih
      · by_cases closing : taken = .close ∧ scanner.lexer.guarded = true ∧
          after.depth = 0
        · obtain ⟨rfl, guarded, outside⟩ := closing
          obtain ⟨inside, rfl, later, split⟩ := outcome.close_spec
          have start := Lexer.closeOne_eq_start inside outside
          have pieceIs : piece = closingMarker := by
            rw [← pieceEq, split]
            exact List.take_left' rfl
          subst pieceIs
          rw [← inputEq] at tracks readStep ⊢
          rw [start] at readStep ih ⊢
          rw [show (scanner.advance .close {} closingMarker).2 =
            [.guard ⟨scanner.digits,
              scanner.gathered.reverse⟩ scanner.openedAt] by
              simp [advance, guarded]]
          exact gives_close tracks guarded readStep ih
        · have noOpening : ∀ count, taken ≠ .openGuard count :=
            fun count same =>
              opening ⟨count, same⟩
          obtain ⟨nothing, lexerEq, digitsEq, gatheredEq⟩ :=
            advance_gathers piece noOpening closing decided
          have heldEq : (scanner.advance taken after piece).1.held =
              scanner.held ++ piece := by
            simp only [held, lexerEq, digitsEq, gatheredEq,
              guarded_of_gathers outcome noOpening closing]
            split <;> simp
          obtain ⟨steps, read⟩ := tracks.read
          have holds := ih ⟨by rwa [lexerEq], _, by
            rw [heldEq, lexerEq, List.append_assoc, inputEq]
            exact read.trans readStep⟩
          rw [Gives, heldEq, List.append_assoc, inputEq] at holds
          rw [nothing, List.nil_append]
          exact holds

end Scanner

theorem segmentsOf_eq (text : Text) :
    segmentsOf text =
      (({} : Scanner).scan true text).2 ++
      (({} : Scanner).scan true text).1.openGuard := by
  have sameScan : (({} : Scanner).withMore text).scan true text =
      ({} : Scanner).scan true text :=
    Scanner.scan_withAhead _ _ _
  unfold segmentsOf Scanner.finish
  rw [show (({} : Scanner).withMore text).ahead = text from rfl, sameScan]
  rfl

def documentOf (text : Text) : Document :=
  .ofSegments (segmentsOf text)

theorem tracks_start (text : Text) : ({} : Scanner).Tracks text :=
  ⟨Lexer.proper_start, _, .done _ _⟩

@[simp] theorem text_documentOf (text : Text) :
    (documentOf text).text = text := by
  rw [documentOf, segmentsOf_eq]
  exact (Scanner.document_spec {} text (tracks_start text)).1

theorem lexed_documentOf (text : Text) : (documentOf text).Lexed := by
  rw [documentOf, segmentsOf_eq]
  exact (Scanner.document_spec {} text (tracks_start text)).2

end SqlDump
