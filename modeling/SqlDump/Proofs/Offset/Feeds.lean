import SqlDump.Proofs.Offset.Progress
import SqlDump.Proofs.Segment.Fresh

/-!
# Calls of the scanner over bytes

The end of a stream leaves the version, the place and the line of the last guard
in the scanner over bytes.  No later call shows them, whatever the counter does.
Feed by feed, the scanner over bytes gives what the scanner over characters
gives, as long as all comments are counted.
-/

namespace SqlDump

/-- Both runs end with the same fault, or with results that are related. -/
inductive Checked.Both {α β : Type} (related : α → β → Prop) :
    Checked α → Checked β → Prop where
  | fault (fault : OffsetFault) : Both related (.error fault) (.error fault)
  | result {left : α} {right : β} (holds : related left right) :
      Both related (.ok left) (.ok right)

namespace Checked.Both

variable {α β γ δ σ : Type} {related : α → β → Prop} {later : γ → δ → Prop}

theorem bind {left : Checked α} {right : Checked β} {next : α → Checked γ}
    {other : β → Checked δ} (first : Both related left right)
    (both : ∀ left right,
      related left right → Both later (next left) (other right)) :
    Both later (left >>= next) (right >>= other) := by
  cases first with
  | fault fault => exact .fault fault
  | result holds => exact both _ _ holds

theorem behind {next : α → Checked γ} {other : α → Checked δ}
    (first : Checked α)
    (both : ∀ value,
      first = .ok value → Both later (next value) (other value)) :
    Both later (first >>= next) (first >>= other) := by
  cases first with
  | error fault => exact .fault fault
  | ok value => exact both value rfl

theorem eq {left right : Checked α} (both : Both Eq left right) :
    left = right := by
  cases both with
  | fault fault => rfl
  | result same => rw [same]

/-- The runs leave related states and give the same answer. -/
structure Along (states : σ → σ → Prop) (left right : σ × α) : Prop where
  state : states left.1 right.1
  answer : left.2 = right.2

/-- The turns stop with related answers, or they come equally far in related
states. -/
inductive Turns (states : σ → σ → Prop) (answers : α → α → Prop) :
    Turn σ α → Turn σ α → Prop where
  | stop {left right : α} (related : answers left right) :
      Turns states answers (.stop left) (.stop right)
  | goOn {left right : σ} (count : Nat) (related : states left right) :
      Turns states answers (.goOn left count) (.goOn right count)

/-- Loops that begin in related states end alike if all their turns do. -/
theorem walk {states : σ → σ → Prop} {answers : α → α → Prop} {length : Nat}
    {turn : σ → Nat → Checked (Turn σ α)} {last : σ → Nat → α}
    (turns : ∀ left right place, states left right →
      Both (Turns states answers) (turn left place) (turn right place))
    (ends : ∀ left right place, states left right →
      answers (last left place) (last right place))
    {left right : σ} (related : states left right) (place : Nat) :
    Both answers (SqlDump.walk length turn last left place)
      (SqlDump.walk length turn last right place) := by
  induction bound : length - place using Nat.strongRecOn
    generalizing left right place with
  | ind count ih =>
      by_cases within : place < length
      · have turned := turns left right place related
        unfold SqlDump.walk
        rw [if_pos within, if_pos within]
        generalize turn left place = first at turned
        generalize turn right place = second at turned
        cases turned with
        | fault fault => exact .fault fault
        | result both =>
            cases both with
            | stop related => exact .result related
            | goOn taken related =>
                by_cases positive : 0 < taken
                · have further :=
                    ih (length - (place + taken)) (by omega) related _ rfl
                  simpa only [if_pos positive] using further
                · simpa only [if_neg positive] using .fault OffsetFault.stuck
      · rw [walk_end left (Nat.le_of_not_lt within),
          walk_end right (Nat.le_of_not_lt within)]
        exact .result (ends left right place related)

end Checked.Both

namespace Lexer.Leaves

variable {counter : DepthCounter} {lexer after : Lexer} {atEnd : Bool}
  {input : Text} {taken : Step}

theorem guarded (leaves : Leaves counter lexer atEnd input taken after)
    (inside : after.guarded = true) :
    lexer.guarded = true ∨ ∃ count, taken = .openGuard count := by
  by_cases waits : taken = .needMore
  · subst waits
    rw [leaves.eq_of_needMore] at inside
    exact .inl inside
  · rw [leaves.guarded_eq] at inside
    exact (leaves.outcome waits).guarded inside

theorem inside (leaves : Leaves counter lexer atEnd input taken after)
    (inside : after.depth ≠ 0) :
    lexer.depth ≠ 0 ∨ taken = .openPlain ∨ ∃ count,
      taken = .openGuard count := by
  by_cases opens : taken = .openPlain
  · exact .inr (.inl opens)
  · by_cases waits : taken = .needMore
    · subst waits
      rw [leaves.eq_of_needMore] at inside
      exact .inl inside
    · rw [leaves.after_eq opens] at inside
      exact (leaves.outcome waits).inside inside

end Lexer.Leaves

namespace Offset

open Checked (Both)
open Lexer (Leaves)
open Scanner (Call Answer)

variable {counter : DepthCounter}

namespace ByteScanner

def mode (scanner : ByteScanner) : ScanMode :=
  if scanner.lexer.depth = 0 then .clean
  else if scanner.lexer.guarded then .inGuard
  else .inComment

def buffered (scanner : ByteScanner) : Nat :=
  scanner.block.size + scanner.carry.size

def call (counter : DepthCounter) (scanner : ByteScanner) :
    Call → Checked (ByteScanner × List Segment.Piece × Option OpenComment)
  | .feed chunk => do
      let (fed, pieces) ← scanner.feed counter chunk
      .ok (fed, pieces, none)
  | .finish => scanner.finish counter

/-- The answers to the calls, one after the other. -/
def answers (counter : DepthCounter) (scanner : ByteScanner) :
    List Call → Checked (List (Answer Segment.Piece))
  | [] => .ok []
  | call :: calls => do
      let (moved, pieces, openComment) ← scanner.call counter call
      let later ← moved.answers counter calls
      .ok (⟨pieces, openComment, moved.mode, moved.lexer.depth,
        moved.buffered⟩ :: later)

/-- The scanners differ at most in what they know of a guard or a comment that
was left. -/
structure Alike (scanner other : ByteScanner) : Prop where
  lexer : scanner.lexer = other.lexer
  carry : scanner.carry = other.carry
  block : scanner.block = other.block
  line : scanner.line = other.line
  opened : other.lexer.guarded = true →
    scanner.innerStart = other.innerStart ∧ scanner.version = other.version
  openedAt : other.lexer.guarded = true ∨ other.lexer.depth ≠ 0 →
    scanner.openedAt = other.openedAt

end ByteScanner

/-- The scans differ at most in what their scanners know of a guard or a comment
that was left. -/
structure Scanning.Alike (scanning other : Scanning) : Prop where
  scanner : scanning.scanner.Alike other.scanner
  mark : scanning.mark = other.mark
  found : scanning.found = other.found

section

variable {scanning other : Scanning} {taken : Step} {after : Lexer}
  {atEnd : Bool} {rest input : Text} {octet : Char} {place : Nat}

/-- A step that opens nothing keeps what is still in use. -/
theorem Scanning.Alike.pass (alike : scanning.Alike other)
    (leaves : Leaves counter other.scanner.lexer atEnd rest taken after)
    (noGuard : ∀ count, taken ≠ .openGuard count)
    (noComment : taken = .openPlain → other.scanner.lexer.depth ≠ 0)
    (octet : Char) :
    (scanning.pass octet after).Alike (other.pass octet after) := by
  have scanner := alike.scanner
  have wasGuarded (guarded : after.guarded = true) :
      other.scanner.lexer.guarded = true := by
    rcases leaves.guarded guarded with was | ⟨count, opens⟩
    · exact was
    · exact absurd opens (noGuard count)
  have wasInside (inside : after.depth ≠ 0) :
      other.scanner.lexer.depth ≠ 0 := by
    rcases leaves.inside inside with was | opens | ⟨count, opens⟩
    · exact was
    · exact noComment opens
    · exact absurd opens (noGuard count)
  refine ⟨⟨rfl, scanner.carry, scanner.block, ?_, fun guarded => ?_,
    fun inside => ?_⟩, alike.mark, alike.found⟩
  · simp only [Scanning.pass, scanner.line]
  · exact scanner.opened (wasGuarded guarded)
  · exact scanner.openedAt (inside.imp wasGuarded wasInside)

theorem Scanning.Alike.advance (alike : scanning.Alike other)
    (leaves : Leaves counter other.scanner.lexer atEnd rest taken after) :
    Both Scanning.Alike (scanning.advance input octet place taken after)
      (other.advance input octet place taken after) := by
  have scanner := alike.scanner
  cases taken with
  | skip count => exact .result (alike.pass leaves (by simp) (by simp) octet)
  | needMore => exact .result (alike.pass leaves (by simp) (by simp) octet)
  | openGuard count =>
      simp only [Scanning.advance, alike.mark, alike.found]
      refine .behind _ fun found _ => .behind _ fun digits _ => .result ?_
      exact ⟨⟨rfl, scanner.carry, rfl, scanner.line, fun _ => ⟨rfl, rfl⟩,
        fun _ => scanner.line⟩, rfl, rfl⟩
  | openPlain =>
      simp only [Scanning.advance, scanner.lexer]
      split
      · refine .result ⟨⟨rfl, scanner.carry, scanner.block, scanner.line,
          fun guarded => scanner.opened ?_, fun _ => scanner.line⟩, alike.mark,
            alike.found⟩
        exact (leaves.guarded guarded).resolve_right (by simp)
      · next inside =>
          exact .result (alike.pass leaves (by simp) (fun _ => inside) octet)
  | close =>
      simp only [Scanning.advance, scanner.lexer]
      split
      · next ends =>
          obtain ⟨startEq, versionEq⟩ := scanner.opened ends.1
          have openedAtEq := scanner.openedAt (.inl ends.1)
          rw [alike.mark, scanner.block, startEq, versionEq, openedAtEq,
            alike.found]
          refine .behind _ fun last _ => .behind _ fun stop _ => .result ?_
          exact ⟨⟨rfl, scanner.carry, rfl, scanner.line, fun _ => ⟨rfl, rfl⟩,
            fun _ => rfl⟩, rfl, rfl⟩
      · exact .result (alike.pass leaves (by simp) (by simp) octet)

theorem Scanning.Alike.turn (alike : scanning.Alike other) (input octets : Text)
    (atEnd : Bool) (place : Nat) :
    Both (Both.Turns Scanning.Alike (Both.Along Scanning.Alike))
      (scanTurn counter input octets atEnd scanning place)
      (scanTurn counter input octets atEnd other place) := by
  unfold scanTurn
  rw [alike.scanner.lexer]
  refine .behind _ fun octet _ => .behind _ fun stepped stepEq => ?_
  obtain ⟨taken, after⟩ := stepped
  dsimp only
  split
  · exact .result (.stop ⟨alike, rfl⟩)
  · refine (alike.advance (Lexer.leaves_of_stepChecked stepEq)).bind
      fun _ _ advanced => ?_
    exact .result (.goOn taken.consumed advanced)

end

namespace ByteScanner

variable {scanner other : ByteScanner}

theorem Alike.mode (alike : scanner.Alike other) :
    scanner.mode = other.mode := by
  unfold ByteScanner.mode
  rw [alike.lexer]

theorem Alike.buffered (alike : scanner.Alike other) :
    scanner.buffered = other.buffered := by
  rw [ByteScanner.buffered, alike.block, alike.carry, ByteScanner.buffered]

theorem Alike.openComment? (alike : scanner.Alike other) :
    scanner.openComment? = other.openComment? := by
  unfold ByteScanner.openComment?
  rw [alike.lexer]
  by_cases outside : other.lexer.depth = 0
  · simp [outside]
  · rw [alike.openedAt (.inr outside)]
    split
    · rfl
    · split
      · next guarded => rw [(alike.opened guarded).2]
      · rfl

theorem Alike.release (alike : scanner.Alike other) (input : Text)
    (mark place : Nat) (found : List Segment.Piece) :
    Both (Both.Along ByteScanner.Alike)
      (scanner.release input mark place found)
      (other.release input mark place found) := by
  have sameGuard := congrArg Lexer.guarded alike.lexer
  unfold ByteScanner.release
  rw [sameGuard, alike.block]
  split
  · refine .behind _ fun last _ => .result ⟨?_, rfl⟩
    exact ⟨alike.lexer, alike.carry, rfl, alike.line, alike.opened,
      alike.openedAt⟩
  · exact .behind _ fun found _ => .result ⟨alike, rfl⟩

theorem Alike.scan (alike : scanner.Alike other) (atEnd : Bool) (input : Text) :
    Both (Both.Along ByteScanner.Alike)
      (scanner.scan counter atEnd input) (other.scan counter atEnd input) := by
  have begins : Scanning.Alike { scanner := { scanner with carry := [] } }
      { scanner := { other with carry := [] } } :=
    ⟨⟨alike.lexer, rfl, alike.block, alike.line, alike.opened, alike.openedAt⟩,
      rfl, rfl⟩
  refine (Both.walk (fun _ _ place alike =>
    alike.turn input input.octets atEnd place)
    (fun _ _ _ alike => ⟨alike, rfl⟩) begins 0).bind ?_
  rintro ⟨scanned, place⟩ ⟨otherScanned, _⟩ ⟨alike, rfl⟩
  dsimp only at alike ⊢
  rw [alike.mark, alike.found]
  refine (alike.scanner.release input otherScanned.mark place
    otherScanned.found).bind ?_
  rintro ⟨released, found⟩ ⟨otherReleased, _⟩ ⟨alike, rfl⟩
  refine .behind _ fun carry _ => .result ⟨?_, rfl⟩
  exact ⟨alike.lexer, rfl, alike.block, alike.line, alike.opened,
    alike.openedAt⟩

theorem Alike.call (alike : scanner.Alike other) (call : Call) :
    Both (Both.Along ByteScanner.Alike)
      (scanner.call counter call) (other.call counter call) := by
  cases call with
  | feed chunk =>
      rw [ByteScanner.call, ByteScanner.feed, alike.carry]
      refine (alike.scan false (other.carry ++ chunk)).bind ?_
      rintro ⟨fed, pieces⟩ ⟨otherFed, _⟩ ⟨alike, rfl⟩
      exact .result ⟨alike, rfl⟩
  | finish =>
      rw [ByteScanner.call, ByteScanner.finish, alike.carry]
      refine (alike.scan true other.carry).bind ?_
      rintro ⟨scanned, pieces⟩ ⟨otherScanned, _⟩ ⟨alike, rfl⟩
      refine .result ⟨⟨rfl, alike.carry, rfl, rfl, by simp, by simp⟩, ?_⟩
      rw [alike.openComment?, alike.lexer, alike.block]

/-- No calls tell scanners apart that are alike. -/
theorem Alike.answers (alike : scanner.Alike other) (calls : List Call) :
    scanner.answers counter calls = other.answers counter calls := by
  induction calls generalizing scanner other with
  | nil => rfl
  | cons call calls ih =>
      apply Both.eq
      refine (alike.call call).bind ?_
      rintro ⟨moved, pieces, openComment⟩ ⟨otherMoved, _⟩ ⟨alike, rfl⟩
      dsimp only
      rw [alike.mode, alike.lexer, alike.buffered, ih alike]
      exact .behind _ fun later _ => .result rfl

private theorem scanTurn_true_ne_stop {input octets : Text}
    {scanning : Scanning} {place : Nat} {answer : Scanning × Nat} :
    scanTurn counter input octets true scanning place ≠ .ok (.stop answer) := by
  intro stops
  obtain ⟨octet, -, stops⟩ := Checked.of_bind stops
  obtain ⟨stepped, stepEq, stops⟩ := Checked.of_bind stops
  obtain ⟨within, same⟩ := Lexer.fst_of_stepChecked stepEq
  have decided : stepped.1 ≠ .needMore := by
    rw [same]
    exact Lexer.step_true_drop_ne_needMore within
  dsimp only at stops
  rw [if_neg decided] at stops
  obtain ⟨advanced, -, stops⟩ := Checked.of_bind stops
  nomatch stops

private theorem carry_scan_true {scanned : ByteScanner}
    {pieces : List Segment.Piece} {input : Text}
    (ran : scanner.scan counter true input = .ok (scanned, pieces)) :
    scanned.carry = [] := by
  obtain ⟨⟨scanning, place⟩, walked, ran⟩ := Checked.of_bind ran
  obtain ⟨⟨released, found⟩, -, ran⟩ := Checked.of_bind ran
  obtain ⟨carry, carryEq, ran⟩ := Checked.of_bind ran
  obtain ⟨rfl, -⟩ := Prod.mk.inj (Except.ok.inj ran)
  have forward (scanning : Scanning) (place : Nat) :
      Forward (scanTurn counter input input.octets true scanning place) :=
    forward_scanTurn input true scanning
  obtain ⟨turns, -, runs⟩ :=
    runsLoop_walk forward (fun scanning place => (scanning, place))
    { scanner := { scanner with carry := [] } } 0
  have endsOf : ∀ answer : Scanning × Nat,
      walk input.size (scanTurn counter input input.octets true)
        (fun scanning place => (scanning, place))
        { scanner := { scanner with carry := [] } } 0 = .ok answer →
          input.size ≤ answer.2 :=
    runs.holds (fun _ _ _ stops => absurd stops scanTurn_true_ne_stop)
      (fun _ _ beyond => beyond)
  have ended := endsOf (scanning, place) walked
  cases cut : input.cutAt place with
  | error fault => simp [Text.since, cut, Except.map] at carryEq
  | ok parts =>
      obtain ⟨whole, placeEq⟩ := Text.cutAt_eq_ok_iff.mp cut
      have rest : parts.2 = carry := by
        simpa [Text.since, cut, Except.map] using carryEq
      have sizes := congrArg Text.size whole
      rw [Text.size_append, rest] at sizes
      change carry = []
      by_contra more
      have positive := Text.size_pos more
      omega

/-- Whatever a scanner was fed, the end of the stream leaves it like a new
one. -/
theorem alike_finish {finished : ByteScanner}
    {given : List Segment.Piece × Option OpenComment}
    (ran : scanner.finish counter = .ok (finished, given)) :
    finished.Alike {} := by
  obtain ⟨⟨scanned, pieces⟩, scanEq, ran⟩ := Checked.of_bind ran
  obtain ⟨rfl, -⟩ := Prod.mk.inj (Except.ok.inj ran)
  have nothingAhead := carry_scan_true scanEq
  exact ⟨rfl, nothingAhead, rfl, rfl, by simp, by simp⟩

end ByteScanner

end Offset

namespace Scanner

theorem depth_scan_le (atEnd : Bool) (scanner : Scanner) (rest later : Text) :
    (scanner.scan atEnd rest).1.lexer.depth +
        openings ((scanner.scan atEnd rest).1.ahead ++ later) ≤
      scanner.lexer.depth + openings (rest ++ later) := by
  have released (scanner : Scanner) (waiting : Text) :
      (scanner.withAhead waiting).release.1.lexer = scanner.lexer ∧
        (scanner.withAhead waiting).release.1.ahead = waiting := by
    unfold release
    split <;> exact ⟨rfl, rfl⟩
  induction scanner, rest using scan_induction atEnd with
  | nil scanner =>
      obtain ⟨lexerEq, aheadEq⟩ := released scanner []
      rw [scan_nil, lexerEq, aheadEq]
  | wait scanner head tail waits =>
      obtain ⟨lexerEq, aheadEq⟩ := released scanner (head :: tail)
      rw [scan_of_needMore scanner waits, lexerEq, aheadEq]
  | step scanner head tail taken after stepEq decided ih =>
      have outcome := Lexer.outcome_of_step stepEq decided
      rw [advance_lexer] at ih
      rw [scan_of_decided scanner stepEq decided]
      exact ih.trans (outcome.depth_add_openings_le later)

def Call.text : Call → Text
  | .feed chunk => chunk
  | .finish => []

def Answer.map {σ τ : Type} (convert : σ → τ) (answer : Answer σ) : Answer τ :=
  { answer with segments := answer.segments.map convert }

theorem depth_call_le (scanner : Scanner) (call : Call) (later : Text) :
    (scanner.call call).1.lexer.depth +
        openings ((scanner.call call).1.ahead ++ later) ≤
      scanner.lexer.depth +
        openings (scanner.ahead ++ (call.text ++ later)) := by
  cases call with
  | feed chunk =>
      have within := depth_scan_le false scanner (scanner.ahead ++ chunk) later
      rwa [List.append_assoc] at within
  | finish =>
      have nothingAhead : (scanner.call .finish).1.ahead = [] :=
        scanner.ahead_scan_true scanner.ahead
      have parts := openings_add_le scanner.ahead later
      change 0 + openings ((scanner.call .finish).1.ahead ++ later) ≤
        scanner.lexer.depth + openings (scanner.ahead ++ later)
      rw [nothingAhead, List.nil_append]
      omega

end Scanner

namespace Offset

open Scanner (Call Answer)

variable {counter : DepthCounter} {faith : Prop} {scanner : ByteScanner}
  {ideal : Scanner}

namespace Stands

private theorem mode_eq (stands : Stands faith scanner ideal) :
    scanner.mode = ideal.mode := by
  rw [ByteScanner.mode, Scanner.mode, stands.mirrors.lexer_eq]

private theorem buffered_eq (stands : Stands faith scanner ideal) :
    scanner.buffered = ideal.buffered := by
  have lexerEq := stands.mirrors.lexer_eq
  rw [ByteScanner.buffered, Scanner.buffered, stands.carry_eq, lexerEq]
  cases guarded : scanner.lexer.guarded with
  | true =>
      obtain ⟨blockEq, -, -⟩ := stands.mirrors.inGuard guarded
      rw [List.append_nil] at blockEq
      rw [blockEq, Text.size_append, Text.size_reverse, if_pos rfl]
  | false =>
      obtain ⟨blockEq, gatheredEq⟩ := stands.mirrors.outside guarded
      rw [List.reverse_eq_nil_iff] at gatheredEq
      rw [blockEq, gatheredEq, if_neg Bool.false_ne_true]
      rfl

end Stands

private theorem call_spec (stands : Stands faith scanner ideal) (call : Call)
    (keeps : counter.Keeps faith
      (ideal.lexer.depth + openings (ideal.ahead ++ call.text))) :
    ∃ moved segments openComment idealMoved,
      scanner.call counter call = .ok (moved, segments.map Segment.piece,
        openComment) ∧
      Stands faith moved idealMoved ∧
      (faith → ideal.call call = (idealMoved, segments, openComment)) := by
  cases call with
  | feed chunk =>
      obtain ⟨fed, segments, idealFed, fedEq, standsThen, same⟩ :=
        feed_spec stands chunk keeps
      refine ⟨fed, segments, none, idealFed, ?_, standsThen, fun holds => ?_⟩
      · simp only [ByteScanner.call, fedEq, Checked.ok_bind]
      · rw [Scanner.call, same holds]
  | finish =>
      rw [Call.text, List.append_nil] at keeps
      exact finish_spec stands keeps

/-- Call by call, the scanner over bytes answers as the one over characters. -/
theorem answers_spec (stands : Stands faith scanner ideal) (calls : List Call)
    (keeps : counter.Keeps faith
      (ideal.lexer.depth + openings (ideal.ahead ++ calls.flatMap Call.text))) :
    ∃ given, scanner.answers counter calls = .ok given ∧
      (faith →
        given = (ideal.answers calls).map (Answer.map Segment.piece)) := by
  induction calls generalizing scanner ideal with
  | nil => exact ⟨[], rfl, fun _ => rfl⟩
  | cons call calls ih =>
      rw [List.flatMap_cons] at keeps
      have parts :=
        openings_add_le (ideal.ahead ++ call.text) (calls.flatMap Call.text)
      rw [List.append_assoc] at parts
      have firstKeeps : counter.Keeps faith
          (ideal.lexer.depth + openings (ideal.ahead ++ call.text)) :=
        keeps.mono fun _ => by omega
      obtain ⟨moved, segments, openComment, idealMoved, callEq, standsThen,
        same⟩ :=
        call_spec stands call firstKeeps
      have laterKeeps : counter.Keeps faith
          (idealMoved.lexer.depth +
            openings (idealMoved.ahead ++ calls.flatMap Call.text)) := by
        refine keeps.mono fun holds => ?_
        have within := ideal.depth_call_le call (calls.flatMap Call.text)
        rwa [same holds] at within
      obtain ⟨later, laterEq, sameLater⟩ := ih standsThen laterKeeps
      refine ⟨⟨segments.map Segment.piece, openComment, moved.mode,
        moved.lexer.depth, moved.buffered⟩ :: later, ?_, fun holds => ?_⟩
      · simp only [ByteScanner.answers, callEq, Checked.ok_bind, laterEq]
      · rw [Scanner.answers, same holds, sameLater holds, standsThen.mode_eq,
          standsThen.buffered_eq, ← standsThen.mirrors.lexer_eq]
        rfl

def ByteScanner.feedAll (counter : DepthCounter) (scanner : ByteScanner) :
    List Text → Checked (ByteScanner × List Segment.Piece)
  | [] => .ok (scanner, [])
  | chunk :: chunks => do
      let (fed, first) ← scanner.feed counter chunk
      let (last, rest) ← fed.feedAll counter chunks
      .ok (last, first ++ rest)

theorem feedAll_spec (stands : Stands faith scanner ideal) (chunks : List Text)
    (keeps : counter.Keeps faith
      (ideal.lexer.depth + openings (ideal.ahead ++ chunks.flatten))) :
    ∃ fed segments idealFed,
      scanner.feedAll counter chunks = .ok (fed, segments.map Segment.piece) ∧
      Stands faith fed idealFed ∧
      (faith → ideal.feedAll chunks = (idealFed, segments)) := by
  induction chunks generalizing scanner ideal with
  | nil => exact ⟨scanner, [], ideal, rfl, stands, fun _ => rfl⟩
  | cons chunk chunks ih =>
      rw [List.flatten_cons] at keeps
      have parts := openings_add_le (ideal.ahead ++ chunk) chunks.flatten
      rw [List.append_assoc] at parts
      obtain ⟨fed, segments, idealFed, feedEq, standsThen, same⟩ :=
        feed_spec stands chunk (keeps.mono fun _ => by omega)
      have laterKeeps : counter.Keeps faith
          (idealFed.lexer.depth +
            openings (idealFed.ahead ++ chunks.flatten)) := by
        refine keeps.mono fun holds => ?_
        have within := ideal.depth_call_le (.feed chunk) chunks.flatten
        rwa [Scanner.call, same holds] at within
      obtain ⟨last, rest, idealLast, lastEq, standsLast, sameLater⟩ :=
        ih standsThen laterKeeps
      refine ⟨last, segments ++ rest, idealLast, ?_, standsLast,
        fun holds => ?_⟩
      · simp only [ByteScanner.feedAll, feedEq, Checked.ok_bind, lastEq,
          List.map_append]
      · rw [Scanner.feedAll, same holds, sameLater holds]

end Offset

end SqlDump
