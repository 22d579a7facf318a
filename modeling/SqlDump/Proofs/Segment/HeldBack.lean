import SqlDump.Proofs.Offset.Feeds
import SqlDump.Proofs.Segment.Feeds
import SqlDump.Proofs.Segment.Nesting

/-!
# What a scanner holds back

Between two feeds a scanner holds the open guard, as far as it was read, and a
text that the lexer cannot decide yet.  All that it was fed and does not hold
has left.  The scanner over bytes holds the same in its block and its carry.
-/

namespace SqlDump

open Lexer (Waits)

namespace Scanner

/-- The open guard, as far as it was read. -/
def openBlock (scanner : Scanner) : Text :=
  if scanner.lexer.guarded then
    guardMarker ++ scanner.digits ++ scanner.gathered.reverse
  else []

/-- A scanner between two feeds: nothing is held but the open guard and a text
that waits. -/
structure HoldsBack (scanner : Scanner) : Prop where
  proper : scanner.lexer.Proper
  held_eq : scanner.held = scanner.openBlock
  waits : scanner.ahead = [] ∨ Waits scanner.lexer scanner.ahead

variable {scanner moved : Scanner} {piece behind : Text}
  {segments : List Segment} {atEnd : Bool}

theorem flatMap_raw_textSegment (reversed : Text) :
    (textSegment reversed).flatMap Segment.raw = reversed.reverse := by
  unfold textSegment
  split
  · next empty => simp [empty]
  · simp [Segment.raw]

theorem Advances.held_append
    (advances : scanner.Advances piece behind moved segments) :
    segments.flatMap Segment.raw ++ moved.held = scanner.held ++ piece := by
  cases advances with
  | guard start nonempty run => simp [held, start, flatMap_raw_textSegment]
  | comment start noMark => simp [held, start, gather]
  | close guarded behind => simp [held, guarded, Segment.raw, Guard.raw]
  | gathers sameGuard opensNone =>
      simp only [held, gather, sameGuard, List.flatMap_nil, List.nil_append]
      split <;> simp

/-- A release at the end of a scan lets everything leave but the open guard and
what waits. -/
theorem release_conserves (scanner : Scanner) (waiting : Text) :
    (scanner.withAhead waiting).release.2.flatMap Segment.raw ++
        ((scanner.withAhead waiting).release.1.openBlock ++
          (scanner.withAhead waiting).release.1.ahead) =
      scanner.held ++ waiting := by
  cases guarded : scanner.lexer.guarded with
  | true => simp [release, withAhead, held, openBlock, guarded]
  | false =>
      simp [release, withAhead, held, openBlock, guarded,
        flatMap_raw_textSegment]

theorem proper_advance {input : Text} {taken : Step} {after : Lexer}
    (proper : scanner.lexer.Proper)
    (stepEq : scanner.lexer.step atEnd input = (taken, after))
    (decided : taken ≠ .needMore) (piece : Text) :
    (scanner.advance taken after piece).1.lexer.Proper := by
  rw [advance_lexer]
  exact (Lexer.outcome_of_step stepEq decided).proper proper

/-- A scan loses nothing: what was held and what is read leaves, or it is held
back. -/
theorem scan_conserves (proper : scanner.lexer.Proper) (rest : Text) :
    (scanner.scan atEnd rest).2.flatMap Segment.raw ++
        ((scanner.scan atEnd rest).1.openBlock ++
          (scanner.scan atEnd rest).1.ahead) =
      scanner.held ++ rest := by
  induction scanner, rest using scan_induction atEnd with
  | nil scanner =>
      rw [scan_nil]
      exact scanner.release_conserves []
  | wait scanner head tail waits =>
      rw [scan_of_needMore scanner waits]
      exact scanner.release_conserves (head :: tail)
  | step scanner head tail taken after stepEq decided ih =>
      have advances := advances_of_step proper stepEq decided
      have later := ih (proper_advance proper stepEq decided _)
      rw [scan_of_decided scanner stepEq decided, List.flatMap_append,
        List.append_assoc, later, ← List.append_assoc, advances.held_append,
        List.append_assoc, List.take_append_drop]

theorem holdsBack_start : ({} : Scanner).HoldsBack where
  proper := Lexer.proper_start
  held_eq := rfl
  waits := .inl rfl

theorem holdsBack_release (proper : scanner.lexer.Proper) {waiting : Text}
    (waits : waiting = [] ∨ Waits scanner.lexer waiting) :
    (scanner.withAhead waiting).release.1.HoldsBack := by
  unfold release
  split
  · next guarded => exact ⟨proper, by simp [held, openBlock, guarded], waits⟩
  · next outside => exact ⟨proper, by simp [held, openBlock, outside], waits⟩

/-- What a scan leaves ahead is what the lexer waits for. -/
theorem holdsBack_scan (proper : scanner.lexer.Proper) (rest : Text) :
    (scanner.scan false rest).1.HoldsBack := by
  induction scanner, rest using scan_induction false with
  | nil scanner =>
      rw [scan_nil]
      exact holdsBack_release proper (.inl rfl)
  | wait scanner head tail waits =>
      rw [scan_of_needMore scanner waits]
      exact holdsBack_release proper
        (.inr (Lexer.waits_of_needMore (List.cons_ne_nil head tail) waits))
  | step scanner head tail taken after stepEq decided ih =>
      rw [scan_of_decided scanner stepEq decided]
      exact ih (proper_advance proper stepEq decided _)

theorem Reachable.holdsBack (reachable : scanner.Reachable) :
    scanner.HoldsBack := by
  induction reachable with
  | start => exact holdsBack_start
  | feed reachable chunk ih => exact holdsBack_scan ih.proper _
  | @finish scanner reachable ih =>
      exact ⟨Lexer.proper_start, rfl,
        .inl (scanner.ahead_scan_true scanner.ahead)⟩

/-- A feed gives what was held back and the chunk, up to what it holds back
itself. -/
theorem HoldsBack.feed_conserves (holds : scanner.HoldsBack) (chunk : Text) :
    (scanner.feed chunk).2.flatMap Segment.raw ++
        ((scanner.feed chunk).1.openBlock ++ (scanner.feed chunk).1.ahead) =
      scanner.openBlock ++ (scanner.ahead ++ chunk) := by
  rw [← holds.held_eq]
  exact scan_conserves holds.proper _

theorem HoldsBack.feedAll_conserves (holds : scanner.HoldsBack)
    (chunks : List Text) :
    (scanner.feedAll chunks).2.flatMap Segment.raw ++
        ((scanner.feedAll chunks).1.openBlock ++
          (scanner.feedAll chunks).1.ahead) =
      scanner.openBlock ++ (scanner.ahead ++ chunks.flatten) := by
  induction chunks generalizing scanner with
  | nil => simp [feedAll]
  | cons chunk chunks ih =>
      have later : (scanner.feed chunk).1.HoldsBack :=
        holdsBack_scan holds.proper _
      -- What the first feed holds back stands in front of the chunks that
      -- follow.
      rw [feedAll, List.flatMap_append, List.append_assoc, ih later,
        ← List.append_assoc _ _ chunks.flatten, ← List.append_assoc,
        holds.feed_conserves chunk, List.flatten_cons, List.append_assoc,
        List.append_assoc]

theorem HoldsBack.feedAll (holds : scanner.HoldsBack) (chunks : List Text) :
    (scanner.feedAll chunks).1.HoldsBack := by
  induction chunks generalizing scanner with
  | nil => exact holds
  | cons chunk chunks ih => exact ih (holdsBack_scan holds.proper _)

end Scanner

def Segment.Piece.raw : Segment.Piece → Text
  | .text plain => plain
  | .guard raw _ _ _ _ => raw

theorem Segment.raw_piece (segment : Segment) :
    segment.piece.raw = segment.raw := by
  cases segment with
  | text plain => rfl
  | guard content line => rfl

theorem Segment.flatMap_raw_piece (segments : List Segment) :
    (segments.map Segment.piece).flatMap Piece.raw =
      segments.flatMap Segment.raw := by
  rw [List.flatMap_map]
  exact List.flatMap_congr fun segment _ => raw_piece segment

namespace Offset

theorem Stands.block_eq {faith : Prop} {scanner : ByteScanner} {ideal : Scanner}
    (stands : Stands faith scanner ideal) :
    scanner.block = ideal.openBlock := by
  have mirrors := stands.mirrors
  rw [Scanner.openBlock, mirrors.lexer_eq]
  split
  · next guarded =>
      rw [← (mirrors.inGuard guarded).1, List.append_nil]
  · next outside =>
      exact (mirrors.outside (Bool.eq_false_iff.mpr outside)).1

end Offset

/-- With the end in sight a step at a place of a buffer is decided, and it takes
one character or more and none behind the end.  So every loop that lexes ends,
after no more turns than there are bytes in front of it.  Without the end in
sight a step waits for a few texts only.  So a scanner that was fed holds back
the open guard and such a text, and all in front of them has left.  The scanner
over bytes does the same with every counter that counts the comments it is
fed. -/
theorem lexing_progresses_and_holds_back :
    (∀ (lexer : Lexer) (buffer : Text) (place : Nat), place < buffer.length →
      (lexer.step true (buffer.drop place)).1 ≠ .needMore ∧
      1 ≤ (lexer.step true (buffer.drop place)).1.consumed ∧
      place + (lexer.step true (buffer.drop place)).1.consumed ≤ buffer.length ∧
      ((lexer.step false (buffer.drop place)).1 = .needMore →
        Waits lexer (buffer.drop place)) ∧
      ∀ (counter : DepthCounter) (atEnd : Bool),
        (∃ after, lexer.stepChecked counter buffer place atEnd =
            .ok ((lexer.step atEnd (buffer.drop place)).1, after)) ∨
          (lexer.step atEnd (buffer.drop place)).1 = .openPlain ∧
            ∃ fault, counter lexer.depth = .error fault ∧
              lexer.stepChecked counter buffer place atEnd = .error fault) ∧
    (∀ (counter : DepthCounter) (σ α : Type)
      (turn : σ → Nat → Checked (Turn σ α)),
      Offset.LexingTurn counter turn →
      ∀ (length : Nat) (last : σ → Nat → α) (state : σ) (place : Nat),
        ∃ turns, turns ≤ length - place ∧
          RunsLoop length turn last state place turns
            (walk length turn last state place)) ∧
    (∀ scanner : Scanner, scanner.Reachable →
      scanner.ahead = [] ∨ Waits scanner.lexer scanner.ahead) ∧
    (∀ (chunks : List Text) (fed : Scanner) (segments : List Segment),
      ({} : Scanner).feedAll chunks = (fed, segments) →
      chunks.flatten = segments.flatMap Segment.raw ++
        (fed.openBlock ++ fed.ahead)) ∧
    ∀ (counter : DepthCounter) (chunks : List Text),
      counter.CountsTo (openings chunks.flatten) →
      ∃ (byBytes : Offset.ByteScanner) (pieces : List Segment.Piece),
        ({} : Offset.ByteScanner).feedAll counter chunks =
          .ok (byBytes, pieces) ∧
        (byBytes.carry = [] ∨ Waits byBytes.lexer byBytes.carry) ∧
        chunks.flatten = pieces.flatMap Segment.Piece.raw ++
          (byBytes.block ++ byBytes.carry) := by
  have conserves (chunks : List Text) :=
    Scanner.holdsBack_start.feedAll_conserves chunks
  refine ⟨fun lexer buffer place within => ?_,
    fun counter σ α turn lexes length last state place =>
      runsLoop_walk lexes.forward last state place,
    fun scanner reachable => reachable.holdsBack.waits,
    fun chunks fed segments fedEq => ?_,
    fun counter chunks counts => ?_⟩
  · have decided : (lexer.step true (buffer.drop place)).1 ≠ .needMore :=
      Lexer.step_true_drop_ne_needMore within
    have nonempty : buffer.drop place ≠ [] := by simpa using within
    obtain ⟨takes, fits⟩ := Lexer.consumed_step_drop within decided
    exact ⟨decided, takes, fits, Lexer.waits_of_needMore nonempty,
      fun counter atEnd => Lexer.stepChecked_cases counter lexer atEnd within⟩
  · have whole := conserves chunks
    rw [fedEq] at whole
    exact whole.symm
  · have keeps :
        counter.Keeps True
          (({} : Lexer).depth + openings ([] ++ chunks.flatten)) :=
      (counts.mono (Nat.le_of_eq (Nat.zero_add _))).keeps
    obtain ⟨byBytes, segments, fed, ran, stands, same⟩ :=
      Offset.feedAll_spec Offset.stands_start chunks keeps
    have holds := Scanner.holdsBack_start.feedAll chunks
    have whole := conserves chunks
    rw [same trivial] at holds whole
    refine ⟨byBytes, segments.map Segment.piece, ran, ?_, ?_⟩
    · rw [stands.carry_eq, ← stands.mirrors.lexer_eq]
      exact holds.waits
    · rw [Segment.flatMap_raw_piece, stands.block_eq, stands.carry_eq]
      exact whole.symm

/-- The digits of a guard go on with the next chunk, and a star at its end may
close the guard. -/
theorem lexing_holds_open_guard :
    Waits {} "/*!40".toList ∧
      ∃ (byBytes : Offset.ByteScanner) (pieces : List Segment.Piece),
        ({} : Offset.ByteScanner).feedAll .trapping ["a/*!40".toList,
          "101 b *".toList] =
          .ok (byBytes, pieces) ∧
        Waits byBytes.lexer byBytes.carry ∧ byBytes.carry = ['*'] ∧
        byBytes.block = "/*!40101 b ".toList ∧
        "a/*!40101 b *".toList =
          pieces.flatMap Segment.Piece.raw ++
          (byBytes.block ++ byBytes.carry) := by
  obtain ⟨steps, -, -, -, feeds⟩ := lexing_progresses_and_holds_back
  obtain ⟨-, -, -, waits, -⟩ := steps {} "a/*!40".toList 1 (by decide)
  have counts : DepthCounter.trapping.CountsTo
      (openings ["a/*!40".toList, "101 b *".toList].flatten) :=
    DepthCounter.trapping_countsTo (by decide)
  obtain ⟨byBytes, pieces, ran, carried, whole⟩ := feeds .trapping _ counts
  have held : (({} : Offset.ByteScanner).feedAll .trapping
      ["a/*!40".toList, "101 b *".toList]).toOption.map (fun fed =>
        (fed.1.block, fed.1.carry)) =
          some ("/*!40101 b ".toList, ['*']) := by decide +kernel
  rw [ran] at held
  obtain ⟨blockEq, carryEq⟩ := Prod.mk.inj (Option.some.inj held)
  refine ⟨waits (by decide), byBytes, pieces, ran, carried.resolve_left ?_,
    carryEq, blockEq, whole⟩
  rw [carryEq]
  exact List.cons_ne_nil _ _

end SqlDump
