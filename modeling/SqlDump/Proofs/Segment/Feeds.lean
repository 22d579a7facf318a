import SqlDump.Proofs.Offset.Feeds
import SqlDump.Proofs.Segment.Unclosed

/-!
# A stream that is fed in chunks

Two texts fed one after the other leave the scanner as the two in one feed leave
it, and the same segments leave on the way, up to cuts through text.  The
segments of a stream join to the stream, every guard holds all the digits behind
its marker and knows the line on which it begins, and the end of the stream
reports the comment that it leaves open.
-/

namespace SqlDump

def consText (piece : Text) : List Segment → List Segment
  | .text behind :: segments => .text (piece ++ behind) :: segments
  | segments => .text piece :: segments

/-- Adjacent pieces of text become one. -/
def joinTexts : List Segment → List Segment
  | [] => []
  | .text piece :: segments => consText piece (joinTexts segments)
  | .guard guard line :: segments => .guard guard line :: joinTexts segments

/-- The segments of the atoms, with whole pieces of text between the guards. -/
def ofAtoms : List Atom → List Segment
  | [] => []
  | .char character :: atoms => consText [character] (ofAtoms atoms)
  | .guard guard line :: atoms => .guard guard line :: ofAtoms atoms

private theorem consText_consText (first second : Text)
    (segments : List Segment) :
    consText first (consText second segments) =
      consText (first ++ second) segments := by
  cases segments with
  | nil => rfl
  | cons segment segments =>
      cases segment with
      | text piece => simp [consText]
      | guard guard line => rfl

private theorem ofAtoms_chars {piece : Text} (nonempty : piece ≠ [])
    (atoms : List Atom) :
    ofAtoms (piece.map .char ++ atoms) = consText piece (ofAtoms atoms) := by
  induction piece with
  | nil => exact absurd rfl nonempty
  | cons head tail ih =>
      cases tail with
      | nil => rfl
      | cons next tail =>
          have later := ih (List.cons_ne_nil next tail)
          rw [List.map_cons, List.cons_append, ofAtoms, later,
            consText_consText]
          rfl

/-- Segments without empty text are joined as their atoms are. -/
theorem joinTexts_eq {segments : List Segment} (visible : .text [] ∉ segments) :
    joinTexts segments = ofAtoms (atomsOf segments) := by
  induction segments with
  | nil => rfl
  | cons segment segments ih =>
      simp only [List.mem_cons, not_or] at visible
      obtain ⟨first, others⟩ := visible
      cases segment with
      | text piece =>
          have nonempty : piece ≠ [] := fun empty => first (empty ▸ rfl)
          rw [joinTexts, ih others, atomsOf_cons, Segment.atoms,
            ofAtoms_chars nonempty]
      | guard guard line =>
          rw [joinTexts, ih others]
          rfl

def Atom.raw : Atom → Text
  | .char character => [character]
  | .guard found _ => found.raw

theorem flatMap_raw_chars (piece : Text) :
    (piece.map Atom.char).flatMap Atom.raw = piece := by
  induction piece with
  | nil => rfl
  | cons head tail ih =>
      rw [List.map_cons, List.flatMap_cons, ih]
      rfl

theorem flatMap_raw_atomsOf (segments : List Segment) :
    (atomsOf segments).flatMap Atom.raw = segments.flatMap Segment.raw := by
  induction segments with
  | nil => rfl
  | cons segment segments ih =>
      rw [atomsOf_cons, List.flatMap_append, List.flatMap_cons, ih]
      congr 1
      cases segment with
      | text piece => exact flatMap_raw_chars piece
      | guard guard line => exact List.append_nil _

/-- A marker, all the digits behind it, a content and a closing marker. -/
structure Guard.Whole (guard : Guard) : Prop where
  raw : guard.raw = guardMarker ++
    (guard.digits ++ (guard.inner ++ closingMarker))
  nonempty : guard.digits ≠ []
  run : (guard.digits ++ (guard.inner ++ closingMarker)).takeWhile
    Char.isDigit = guard.digits

/-- In a stream that goes on at the line, the guards are whole and know their
lines. -/
def Numbered : Nat → List Atom → Prop
  | _, [] => True
  | line, .char character :: atoms =>
      Numbered (line + [character].count '\n') atoms
  | line, .guard guard opened :: atoms =>
      guard.Whole ∧ opened = line ∧ Numbered (line + guard.raw.count '\n') atoms

theorem numbered_append {line : Nat} {first second : List Atom} :
    Numbered line (first ++ second) ↔
      Numbered line first ∧
      Numbered (line + (first.flatMap Atom.raw).count '\n') second := by
  induction first generalizing line with
  | nil => simp [Numbered]
  | cons atom atoms ih =>
      rw [List.cons_append, List.flatMap_cons, List.count_append,
        ← Nat.add_assoc]
      cases atom with
      | char character => exact ih
      | guard guard opened =>
          simp only [Numbered, ih, Atom.raw, and_assoc]

theorem numbered_chars (line : Nat) (piece : Text) :
    Numbered line (piece.map .char) := by
  induction piece generalizing line with
  | nil => exact trivial
  | cons head tail ih => exact ih _

theorem Numbered.guard {start line : Nat} {earlier later : List Segment}
    {guard : Guard}
    (numbered :
      Numbered start (atomsOf (earlier ++ .guard guard line :: later))) :
    guard.Whole ∧ line = start + (earlier.flatMap Segment.raw).count '\n' := by
  rw [atomsOf_append, numbered_append, flatMap_raw_atomsOf] at numbered
  obtain ⟨-, whole, lineEq, -⟩ := numbered
  exact ⟨whole, lineEq⟩

namespace Scanner

/-- What the scanner holds begins on the line `start`, and a guard in it has all
its digits. -/
structure Counts (scanner : Scanner) (start : Nat) (rest : Text) : Prop where
  proper : scanner.lexer.Proper
  line : scanner.line = start + scanner.held.count '\n'
  opened : scanner.lexer.guarded = true → scanner.openedAt = start
  nonempty : scanner.lexer.guarded = true → scanner.digits ≠ []
  run : scanner.lexer.guarded = true →
    (scanner.digits ++ (scanner.gathered.reverse ++ rest)).takeWhile
      Char.isDigit = scanner.digits

variable {scanner moved : Scanner} {start : Nat} {piece behind : Text}
  {segments : List Segment}

/-- The guard that the closing marker ends has a digit run that ends before the
marker. -/
theorem Counts.whole (counts : scanner.Counts start (closingMarker ++ behind))
    (guarded : scanner.lexer.guarded = true) :
    (⟨scanner.digits, scanner.gathered.reverse⟩ : Guard).Whole where
  raw := by simp [Guard.raw]
  nonempty := counts.nonempty guarded
  run := by
    have run := counts.run guarded
    have inputEq : scanner.digits ++
        (scanner.gathered.reverse ++ (closingMarker ++ behind)) =
        scanner.digits ++ (scanner.gathered.reverse ++ closingMarker) ++
        behind := by simp
    rw [inputEq, List.takeWhile_append] at run
    split at run
    · have lengths := congrArg List.length run
      simp only [List.length_append, closingMarker, List.length_cons,
        List.length_nil] at lengths
      omega
    · exact run

theorem counts_of_plain {rest : Text} (plain : scanner.lexer.guarded = false)
    (line : scanner.line = start + scanner.gathered.count '\n') :
    scanner.Counts start rest where
  proper := fun guarded => absurd (plain.symm.trans guarded) Bool.false_ne_true
  line := by simp [line, held, plain]
  opened := fun guarded => absurd (plain.symm.trans guarded) Bool.false_ne_true
  nonempty := fun guarded =>
    absurd (plain.symm.trans guarded) Bool.false_ne_true
  run := fun guarded => absurd (plain.symm.trans guarded) Bool.false_ne_true

/-- What a step gives is numbered, and the rest goes on where it ends. -/
theorem Counts.advances (counts : scanner.Counts start (piece ++ behind))
    (advances : scanner.Advances piece behind moved segments)
    (proper : moved.lexer.Proper) :
    Numbered start (atomsOf segments) ∧
      moved.Counts (start + (segments.flatMap Segment.raw).count '\n')
        behind := by
  have line := counts.line
  cases advances with
  | @guard begins digits behind nonempty run =>
      have noBreak :=
        List.count_eq_zero.mpr (Lexer.Opening.guard nonempty run).noBreak
      have lineThen : scanner.line =
          start + ((textSegment scanner.gathered).flatMap Segment.raw).count
            '\n' := by
        have outside : scanner.lexer.guarded = false := by rw [begins]
        rw [← flatMap_raw_atomsOf, atomsOf_textSegment, flatMap_raw_chars, line]
        simp [held, outside]
      refine ⟨?_, proper, ?_, fun _ => lineThen, fun _ => nonempty,
        fun _ => run⟩
      · rw [atomsOf_textSegment]
        exact numbered_chars start _
      · rw [← lineThen]
        simp [held, noBreak]
  | comment begins noMark =>
      have outside : scanner.lexer.guarded = false := by rw [begins]
      refine ⟨trivial, counts_of_plain rfl ?_⟩
      simp only [held, outside, Bool.false_eq_true, if_false,
        List.count_reverse] at line
      simp [gather, line, commentMarker]
  | close guarded behind =>
      have heldEq : scanner.held ++ closingMarker =
          (⟨scanner.digits, scanner.gathered.reverse⟩ : Guard).raw := by
        simp [held, guarded, Guard.raw]
      have whole := counts.whole guarded
      refine ⟨⟨whole, counts.opened guarded, trivial⟩, counts_of_plain rfl ?_⟩
      simp [Segment.raw, ← heldEq, line, closingMarker]
  | @gathers _ _ after sameGuard opensNone =>
      have input : scanner.gathered.reverse ++ (piece ++ behind) =
          (piece.reverse ++ scanner.gathered).reverse ++ behind := by simp
      have heldEq : ({ scanner with
          lexer := after
          line := scanner.line + piece.count '\n' }.gather piece).held =
            scanner.held ++ piece := by
        simp only [gather, held, sameGuard]
        split <;> simp
      refine ⟨trivial, proper, ?_, ?_, ?_, ?_⟩
      · rw [heldEq, List.count_append, ← Nat.add_assoc, List.flatMap_nil,
          List.count_nil, Nat.add_zero, ← line]
        rfl
      · intro guarded
        exact counts.opened (sameGuard.symm.trans guarded)
      · intro guarded
        exact counts.nonempty (sameGuard.symm.trans guarded)
      · intro guarded
        have run := counts.run (sameGuard.symm.trans guarded)
        rwa [input] at run

theorem Counts.scan {rest : Text} (counts : scanner.Counts start rest) :
    Numbered start (atomsOf (scanner.scan true rest).2) := by
  induction scanner, rest using scan_induction true generalizing start with
  | nil scanner =>
      rw [scan_nil]
      unfold release
      split
      · exact trivial
      · rw [atomsOf_textSegment]
        exact numbered_chars start _
  | wait scanner head tail waits =>
      exact absurd waits (Lexer.step_true_ne_needMore head tail)
  | step scanner head tail taken after stepEq decided ih =>
      have advances := advances_of_step counts.proper stepEq decided
      have lexerEq :=
        scanner.advance_lexer taken after ((head :: tail).take taken.consumed)
      have proper := (Lexer.outcome_of_step stepEq decided).proper counts.proper
      have inputEq := List.take_append_drop taken.consumed (head :: tail)
      rw [← lexerEq] at proper
      rw [← inputEq] at counts
      obtain ⟨given, later⟩ := counts.advances advances proper
      rw [scan_of_decided scanner stepEq decided, atomsOf_append,
        numbered_append, flatMap_raw_atomsOf]
      exact ⟨given, ih later⟩

private theorem numbered_openGuard (scanner : Scanner) (line : Nat) :
    Numbered line (atomsOf scanner.openGuard) := by
  unfold openGuard
  split
  · rw [atomsOf_cons, Segment.atoms, atomsOf_nil, List.append_nil]
    exact numbered_chars line _
  · exact trivial

theorem numbered_segmentsIn (chunks : List Text) :
    Numbered 1 (atomsOf (segmentsIn chunks)) := by
  have counts : ({} : Scanner).Counts 1 chunks.flatten :=
    counts_of_plain rfl rfl
  rw [atomsOf_segmentsIn, segmentsOf_eq, atomsOf_append, numbered_append]
  exact ⟨counts.scan, numbered_openGuard _ _⟩

private theorem flatMap_raw_segmentsIn (chunks : List Text) :
    (segmentsIn chunks).flatMap Segment.raw = chunks.flatten := by
  have joined : (documentOf chunks.flatten).text = chunks.flatten :=
    text_documentOf chunks.flatten
  rw [documentOf, Document.text_ofSegments, ← flatMap_raw_atomsOf] at joined
  rwa [← flatMap_raw_atomsOf, atomsOf_segmentsIn]

theorem openComment_feedAll (chunks : List Text) :
    (({} : Scanner).feedAll chunks).1.finish.2.2 =
      openCommentOf? chunks.flatten := by
  have whole := (finish_withMore ({} : Scanner) chunks.flatten []).1
  have fed : (({} : Scanner).feed chunks.flatten).1 =
      (({} : Scanner).feedAll chunks).1 :=
    (feedAll_start chunks).1.symm
  have nothingMore : ∀ scanner : Scanner, scanner.withMore [] = scanner := by
    intro scanner
    simp [withMore]
  rw [List.append_nil, fed, nothingMore] at whole
  exact whole.symm

/-- Where a text is cut into two feeds shows only in the cuts through text. -/
theorem feed_append (scanner : Scanner) (first second : Text) :
    (scanner.feed (first ++ second)).1 =
      ((scanner.feed first).1.feed second).1 ∧
      joinTexts (scanner.feed (first ++ second)).2 =
        joinTexts ((scanner.feed first).2 ++
          ((scanner.feed first).1.feed second).2) := by
  obtain ⟨state, atoms⟩ :=
    scan_append false scanner (scanner.ahead ++ first) second
  rw [List.append_assoc] at state atoms
  refine ⟨state, ?_⟩
  have visible (scanner : Scanner) (text : Text) :
      .text [] ∉ (scanner.feed text).2 :=
    text_nil_not_mem_scan false scanner _
  have visibleBoth :
      .text [] ∉ (scanner.feed first).2 ++
      ((scanner.feed first).1.feed second).2 := by
    rw [List.mem_append, not_or]
    exact ⟨visible scanner first, visible _ second⟩
  rw [joinTexts_eq (visible scanner _), joinTexts_eq visibleBoth,
    atomsOf_append]
  exact congrArg ofAtoms atoms

end Scanner

/-- Feeds compose in every state.  The segments of a stream join to it, its
guards are whole and know their lines, and the comment that the end leaves open
is reported.  Whatever a scanner was fed, the end leaves it outside of all
comments with nothing held, and from then on it answers all calls as a new one.
So does the scanner over bytes, whatever its counter does, and it answers as the
one over characters if the counter counts all comments of the calls. -/
theorem feeds_compose :
    (∀ (scanner : Scanner) (first second : Text),
      (scanner.feed (first ++ second)).1 =
        ((scanner.feed first).1.feed second).1 ∧
        joinTexts (scanner.feed (first ++ second)).2 =
          joinTexts ((scanner.feed first).2 ++
            ((scanner.feed first).1.feed second).2)) ∧
    (∀ chunks : List Text,
      (Scanner.segmentsIn chunks).flatMap Segment.raw = chunks.flatten ∧
      (∀ earlier guard line later,
        Scanner.segmentsIn chunks = earlier ++ .guard guard line :: later →
          guard.Whole ∧ line = 1 + (earlier.flatMap Segment.raw).count '\n') ∧
      ((({} : Scanner).feedAll chunks).1.finish.2.2.isSome = true ↔
        ∃ steps after, Lexer.Reads {} chunks.flatten steps after [] ∧
          0 < after.depth) ∧
      ∀ report, (({} : Scanner).feedAll chunks).1.finish.2.2 = some report ↔
        LeavesOpen chunks.flatten report) ∧
    (∀ (scanner : Scanner) (calls : List Scanner.Call),
      scanner.finish.1.mode = .clean ∧ scanner.finish.1.buffered = 0 ∧
      scanner.finish.1.answers calls = ({} : Scanner).answers calls) ∧
    (∀ (counter : DepthCounter) (scanner : Offset.ByteScanner)
      (calls : List Scanner.Call),
      (do
        let (finished, _) ← scanner.finish counter
        finished.answers counter calls) =
      (do
        let _ ← scanner.finish counter
        ({} : Offset.ByteScanner).answers counter calls)) ∧
    ∀ (counter : DepthCounter) (calls : List Scanner.Call),
      counter.CountsTo (openings (calls.flatMap Scanner.Call.text)) →
      ({} : Offset.ByteScanner).answers counter calls =
        .ok ((({} : Scanner).answers calls).map
          (Scanner.Answer.map Segment.piece)) := by
  refine ⟨Scanner.feed_append, fun chunks => ?_, fun scanner calls => ?_,
    fun counter scanner calls => ?_, fun counter calls counts => ?_⟩
  · have numbered := Scanner.numbered_segmentsIn chunks
    have joined := Scanner.flatMap_raw_segmentsIn chunks
    refine ⟨joined, ?_, ?_, ?_⟩
    · intro earlier guard line later split
      rw [split] at numbered
      exact numbered.guard
    · rw [Scanner.openComment_feedAll]
      exact isSome_openCommentOf?_iff
    · intro report
      rw [Scanner.openComment_feedAll]
      exact openCommentOf?_eq_some_iff
  · have fresh := scanner.alike_finish
    exact ⟨fresh.mode, fresh.buffered, fresh.answers calls⟩
  · cases finishEq : scanner.finish counter with
    | error fault => rfl
    | ok ended =>
        obtain ⟨finished, given⟩ := ended
        exact (Offset.ByteScanner.alike_finish finishEq).answers calls
  · have keeps : counter.Keeps True
        (({} : Lexer).depth +
          openings ([] ++ calls.flatMap Scanner.Call.text)) :=
      (counts.mono (Nat.le_of_eq (Nat.zero_add _))).keeps
    obtain ⟨given, givenEq, same⟩ :=
      Offset.answers_spec Offset.stands_start calls keeps
    rw [givenEq, same trivial]

/-- A guard is left open at the end of a stream, and the next stream begins on
its own first line with a guard of its own version. -/
theorem feeds_answer_behind_end :
    ∃ first last : Scanner.Answer Segment.Piece,
      ({} : Offset.ByteScanner).answers .trapping
          [.feed "\n/*!40101 a".toList, .finish, .feed "/*!2 b*/".toList] =
        .ok [first,
          ⟨[.text "/*!40101 a".toList], some ⟨.guard 40101, 2⟩, .clean, 0,
          0⟩, last] ∧
      last.segments = [.guard "/*!2 b*/".toList 2 4 6 1] := by
  obtain ⟨-, -, -, -, answers⟩ := feeds_compose
  have counts : DepthCounter.trapping.CountsTo
      (openings ([.feed "\n/*!40101 a".toList, .finish,
        .feed "/*!2 b*/".toList].flatMap
        Scanner.Call.text)) :=
    DepthCounter.trapping_countsTo (by decide)
  have given : (({} : Scanner).answers
      [.feed "\n/*!40101 a".toList, .finish, .feed "/*!2 b*/".toList]).map
        (Scanner.Answer.map Segment.piece) =
      [⟨[.text ['\n']], none, .inGuard, 1, 10⟩,
        ⟨[.text "/*!40101 a".toList], some ⟨.guard 40101, 2⟩, .clean, 0, 0⟩,
        ⟨[.guard "/*!2 b*/".toList 2 4 6 1], none, .clean, 0, 0⟩] := by
    decide +kernel
  rw [answers .trapping _ counts, given]
  exact ⟨_, _, rfl, rfl⟩

end SqlDump
