import SqlDump.Proofs.Guard.Content
import SqlDump.Proofs.Lexer.Place
import SqlDump.Proofs.Segment.Feeds
import SqlDump.Proofs.Segment.Opening

/-!
# Guards anywhere in a stream

A place in code is a place that the lexer stops at, unless characters without a
meaning follow.  So a scanner that reads the stream stops at every guard in
code, and gives the guard, however the stream is cut into chunks.
-/

namespace SqlDump

namespace Lexer

variable {lexer after : Lexer} {text rest : Text} {count : Nat}

theorem CodeCut.reads (cut : CodeCut lexer text count)
    (opens : ∀ head ∈ (text.drop count).head?, head ∈ openers) :
    ∃ steps, Reads lexer text steps {} (text.drop count) := by
  induction cut with
  | here text => exact ⟨[], .done _ _⟩
  | @behind lexer head tail later cut ih =>
      rw [← List.drop_drop] at opens ⊢
      obtain ⟨steps, reads⟩ := ih opens
      exact ⟨_, .step (List.cons_ne_nil head tail) reads⟩
  | @inside head tail plain count noOpener lengthEq dropEq stays =>
      have nothing : plain = [] := by
        cases plain with
        | nil => rfl
        | cons first others =>
            rw [dropEq] at opens
            exact absurd (opens first rfl) (noOpener first List.mem_cons_self)
      subst nothing
      rw [List.length_nil, Nat.add_zero] at lengthEq
      have reads := Reads.one {} (List.cons_ne_nil head tail)
      rw [stays, ← lengthEq] at reads
      exact ⟨_, reads⟩

/-- The lexer stops in front of every character in code that can open
something. -/
theorem reads_of_inCodeAt (proper : lexer.Proper) {front : Text}
    (inCode : lexer.inCodeAt (front ++ rest) front.length = true)
    (opens : ∀ head ∈ rest.head?, head ∈ openers) :
    ∃ steps, Reads lexer (front ++ rest) steps {} rest := by
  have cut := codeCut_of_inCodeAt proper inCode
  have dropEq : (front ++ rest).drop front.length = rest := List.drop_left
  have reads := cut.reads (by rwa [dropEq])
  rwa [dropEq] at reads

end Lexer

theorem Document.ofSegments_split {segments : List Segment}
    {lead following : Text} {guard : Guard} {blocks : List (Guard × Text)}
    (same : ofSegments segments = ⟨lead, (guard, following) :: blocks⟩) :
    ∃ earlier line later, segments = earlier ++ .guard guard line :: later ∧
      earlier.flatMap Segment.raw = lead ∧
      later.flatMap Segment.raw = text ⟨following, blocks⟩ := by
  induction segments generalizing lead with
  | nil => simp [ofSegments] at same
  | cons segment segments ih =>
      cases segment with
      | text piece =>
          simp only [ofSegments, Document.mk.injEq] at same
          obtain ⟨rfl, blocksEq⟩ := same
          have behindPiece : ofSegments segments =
              ⟨(ofSegments segments).lead, (guard, following) :: blocks⟩ := by
            rw [← blocksEq]
          obtain ⟨earlier, line, later, rfl, before, behind⟩ := ih behindPiece
          refine ⟨.text piece :: earlier, line, later, rfl, ?_, behind⟩
          rw [List.flatMap_cons, before]
          rfl
      | guard found line =>
          simp only [ofSegments, Document.mk.injEq, List.cons.injEq,
            Prod.mk.injEq] at same
          obtain ⟨rfl, ⟨rfl, rfl⟩, rfl⟩ := same
          exact ⟨[], line, segments, rfl, rfl, (text_ofSegments segments).symm⟩

private theorem atomsOf_split {segments : List Segment}
    {before behind : List Atom} {guard : Guard} {line : Nat}
    (same : atomsOf segments = before ++ .guard guard line :: behind) :
    ∃ earlier later, segments = earlier ++ .guard guard line :: later ∧
      atomsOf earlier = before ∧ atomsOf later = behind := by
  induction segments generalizing before with
  | nil => simp at same
  | cons segment segments ih =>
      rw [atomsOf_cons, List.append_eq_append_iff] at same
      rcases same with ⟨more, rfl, later⟩ | ⟨more, atomsEq, later⟩
      · obtain ⟨earlier, last, rfl, rfl, lastEq⟩ := ih later
        exact ⟨segment :: earlier, last, rfl, rfl, lastEq⟩
      · cases more with
        | nil =>
            have behindAtoms : atomsOf segments = [] ++ .guard guard line ::
                behind := later.symm
            obtain ⟨earlier, last, rfl, nothing, lastEq⟩ := ih behindAtoms
            refine ⟨segment :: earlier, last, rfl, ?_, lastEq⟩
            rw [atomsOf_cons, nothing, atomsEq]
            simp
        | cons atom atoms =>
            obtain ⟨rfl, laterEq⟩ := List.cons.inj later
            cases segment with
            | text piece =>
                have char : Atom.guard guard line ∈ piece.map .char := by
                  rw [show piece.map Atom.char = _ from atomsEq]
                  simp
                simp at char
            | guard found opened =>
                have single : [Atom.guard found opened] =
                    before ++ .guard guard line :: atoms :=
                  atomsEq
                obtain ⟨rfl, found, rfl⟩ : before = [] ∧
                    Atom.guard found opened = .guard guard line ∧
                    atoms = [] := by
                  cases before with
                  | nil => simpa using single
                  | cons first others => simp at single
                obtain ⟨rfl, rfl⟩ := Atom.guard.inj found
                exact ⟨[], segments, rfl, rfl, laterEq.symm⟩

namespace Scanner

variable {scanner moved : Scanner} {piece behind : Text}
  {segments : List Segment}

/-- What a step gives and what is held behind it are what was held and the
characters taken. -/
theorem Advances.raw (advances : scanner.Advances piece behind moved segments) :
    segments.flatMap Segment.raw ++ moved.held = scanner.held ++ piece := by
  have rawText (reversed : Text) :
      (textSegment reversed).flatMap Segment.raw = reversed.reverse := by
    rw [← flatMap_raw_atomsOf, atomsOf_textSegment, flatMap_raw_chars]
  cases advances with
  | guard start nonempty run => simp [held, start, rawText]
  | comment start noMark => simp [held, start, gather]
  | close guarded behind => simp [held, guarded, Segment.raw, Guard.raw]
  | gathers sameGuard opensNone =>
      simp only [held, gather, sameGuard]
      split <;> simp

theorem scan_of_reads {lexer after : Lexer} {text rest : Text}
    {steps : List Step} (reads : Lexer.Reads lexer text steps after rest)
    (scanner : Scanner) (same : scanner.lexer = lexer)
    (proper : scanner.lexer.Proper) :
    ∃ (moved : Scanner) (segments : List Segment), moved.lexer = after ∧
      scanner.scan true text =
        ((moved.scan true rest).1, segments ++ (moved.scan true rest).2) ∧
      segments.flatMap Segment.raw ++ (moved.held ++ rest) =
        scanner.held ++ text := by
  induction reads generalizing scanner with
  | done lexer rest => exact ⟨scanner, [], same, rfl, rfl⟩
  | @step lexer after input rest steps nonempty behind ih =>
      subst same
      obtain ⟨head, tail, rfl⟩ := List.exists_cons_of_ne_nil nonempty
      obtain ⟨⟨taken, next⟩, stepEq⟩ :
          ∃ result, scanner.lexer.step true (head :: tail) = result := ⟨_, rfl⟩
      have decided : taken ≠ .needMore := by
        have known : (scanner.lexer.step true (head :: tail)).1 ≠ .needMore :=
          Lexer.step_true_ne_needMore head tail
        rwa [stepEq] at known
      have nextEq : scanner.lexer.next (head :: tail) = next :=
        congrArg Prod.snd stepEq
      have takenEq : scanner.lexer.taken (head :: tail) = taken.consumed :=
        congrArg (fun result => result.1.consumed) stepEq
      rw [nextEq, takenEq] at behind ih
      have advances := advances_of_step proper stepEq decided
      have lexerEq :=
        scanner.advance_lexer taken next ((head :: tail).take taken.consumed)
      have stillProper := (Lexer.outcome_of_step stepEq decided).proper proper
      rw [← lexerEq] at stillProper
      obtain ⟨moved, segments, movedEq, scanEq, rawEq⟩ :=
        ih _ lexerEq stillProper
      refine ⟨moved,
        (scanner.advance taken next ((head :: tail).take taken.consumed)).2 ++
        segments, movedEq, ?_, ?_⟩
      · rw [scan_of_decided scanner stepEq decided, scanEq, ← List.append_assoc]
      · rw [List.flatMap_append, List.append_assoc, rawEq, ← List.append_assoc,
          advances.raw, List.append_assoc, List.take_append_drop]

/-- The scanner gives every guard in code, with the line on which it opens. -/
theorem segmentsIn_split (chunks : List Text) {before rest : Text}
    {guard : Guard} (whole : chunks.flatten = before ++ (guard.raw ++ rest))
    (inCode : ({} : Lexer).inCodeAt chunks.flatten before.length = true)
    (begins : guard.Begins (guard.raw ++ rest) rest) :
    ∃ earlier later,
      segmentsIn chunks = earlier ++ .guard guard (1 + before.count '\n') ::
      later ∧
        earlier.flatMap Segment.raw = before ∧
          later.flatMap Segment.raw = rest := by
  have opens : ∀ head ∈ (guard.raw ++ rest).head?, head ∈ Lexer.openers := by
    intro head first
    obtain rfl : '/' = head := by simpa [Guard.raw, guardMarker] using first
    decide
  rw [whole] at inCode
  obtain ⟨steps, reads⟩ :=
    Lexer.reads_of_inCodeAt Lexer.proper_start inCode opens
  obtain ⟨moved, segments, start, scanEq, rawEq⟩ :=
    scan_of_reads reads {} rfl Lexer.proper_start
  obtain ⟨document, textEq, documentEq⟩ := document_of_scan start begins.scan_eq
  obtain ⟨earlier, line, later, split, earlierRaw, laterRaw⟩ :=
    Document.ofSegments_split documentEq
  have atoms : atomsOf (segmentsIn chunks) =
      atomsOf (segments ++ earlier) ++ .guard guard line :: atomsOf later := by
    rw [atomsOf_segmentsIn, segmentsOf_eq, whole, scanEq, List.append_assoc,
      split]
    simp [Segment.atoms]
  obtain ⟨first, last, splitIn, firstAtoms, lastAtoms⟩ := atomsOf_split atoms
  have firstRaw : first.flatMap Segment.raw = before := by
    have heldEq : moved.held = moved.gathered.reverse := by simp [held, start]
    have nothing : ({} : Scanner).held = [] := rfl
    rw [← List.append_assoc, heldEq, nothing, List.nil_append] at rawEq
    rw [← flatMap_raw_atomsOf, firstAtoms, flatMap_raw_atomsOf,
      List.flatMap_append, earlierRaw, ← List.append_cancel_right rawEq]
    simp [Document.withGuard]
  have lastRaw : last.flatMap Segment.raw = rest := by
    rw [← flatMap_raw_atomsOf, lastAtoms, flatMap_raw_atomsOf, laterRaw,
      ← textEq]
  have numbered := numbered_segmentsIn chunks
  rw [splitIn] at numbered
  obtain ⟨-, lineEq⟩ := numbered.guard
  rw [firstRaw] at lineEq
  exact ⟨first, last, lineEq ▸ splitIn, firstRaw, lastRaw⟩

end Scanner

end SqlDump
