import SqlDump.Proofs.Offset.Guard
import SqlDump.Proofs.Segment.Document

/-!
# Scanning bytes

A scanner that keeps the bytes of an open guard in a block and the rest of its
input between two offsets: the mark behind the last piece that left, and the
place of the lexer.  Behind every character the block and the input from the
mark on are what the scanner over characters gathered.
-/

namespace SqlDump

open Text

namespace Segment

/-- A segment with the offsets that find the content of its guard. -/
inductive Piece where
  | text (text : Text)
  | guard (raw : Text) (version start stop line : Nat)
deriving DecidableEq, Repr

def piece : Segment → Piece
  | .text plain => .text plain
  | .guard content line =>
      .guard content.raw content.version content.opening.size
        (content.opening ++ content.inner).size line

end Segment

namespace Offset

structure ByteScanner where
  lexer : Lexer := {}
  carry : Text := []
  /-- The open guard, as far as it came with earlier input. -/
  block : Text := []
  /-- Where the content of the open guard begins. -/
  innerStart : Nat := 0
  version : Nat := 0
  /-- Line of the outermost open comment. -/
  openedAt : Nat := 0
  line : Nat := 1
deriving DecidableEq, Repr

/-- A scanner on its way through its input. -/
structure Scanning where
  scanner : ByteScanner
  /-- The input in front of this offset has left, or lies in the block. -/
  mark : Nat := 0
  /-- The pieces that left in reverse order. -/
  found : List Segment.Piece := []

def emitText (input : Text) (mark place : Nat) (found : List Segment.Piece) :
    Checked (List Segment.Piece) :=
  if mark < place then do
    let text ← input.between mark place
    .ok (.text text :: found)
  else .ok found

namespace Scanning

def pass (scanning : Scanning) (octet : Char) (after : Lexer) : Scanning :=
  { scanning with
    scanner := { scanning.scanner with
      lexer := after
      line := if octet = '\n' then scanning.scanner.line + 1
        else scanning.scanner.line } }

def advance (scanning : Scanning) (input : Text) (octet : Char) (place : Nat)
    (taken : Step) (after : Lexer) : Checked Scanning :=
  match taken with
  | .openGuard count => do
      let found ← emitText input scanning.mark place scanning.found
      let digits ← input.between (place + guardMarker.length) (place + count)
      .ok {
        scanner := { scanning.scanner with
          lexer := after
          block := []
          innerStart := count
          version := versionOfDigits digits
          openedAt := scanning.scanner.line }
        mark := place
        found := found }
  | .close =>
      if scanning.scanner.lexer.guarded = true ∧ after.depth = 0 then do
        let last ← input.between scanning.mark (place + 2)
        let raw := scanning.scanner.block ++ last
        let stop ← Checked.minus raw.size 2
        .ok {
          scanner := { scanning.scanner with lexer := after, block := [] }
          mark := place + 2
          found :=
            .guard raw scanning.scanner.version scanning.scanner.innerStart stop
            scanning.scanner.openedAt :: scanning.found }
      else .ok (scanning.pass octet after)
  | .openPlain =>
      if scanning.scanner.lexer.depth = 0 then
        .ok { scanning with
          scanner := { scanning.scanner with
            lexer := after
            openedAt := scanning.scanner.line } }
      else .ok (scanning.pass octet after)
  | _ => .ok (scanning.pass octet after)

end Scanning

def scanTurn (counter : DepthCounter) (input octets : Text) (atEnd : Bool)
    (scanning : Scanning) (place : Nat) :
    Checked (Turn Scanning (Scanning × Nat)) := do
  let octet ← octets.octetAt place
  let (taken, after) ←
      scanning.scanner.lexer.stepChecked counter octets place atEnd
  if taken = .needMore then .ok (.stop (scanning, place))
  else do
    let advanced ← scanning.advance input octet place taken after
    .ok (.goOn advanced taken.consumed)

namespace ByteScanner

/-- Put what was read since the mark into the block of an open guard, or let it
leave. -/
def release (scanner : ByteScanner) (input : Text) (mark place : Nat)
    (found : List Segment.Piece) : Checked (ByteScanner × List Segment.Piece) :=
  if scanner.lexer.guarded then do
    let last ← input.between mark place
    .ok ({ scanner with block := scanner.block ++ last }, found)
  else do
    let found ← emitText input mark place found
    .ok (scanner, found)

def scan (counter : DepthCounter) (scanner : ByteScanner) (atEnd : Bool)
    (input : Text) :
    Checked (ByteScanner × List Segment.Piece) := do
  let (scanning, place) ←
      walk input.size (scanTurn counter input input.octets atEnd)
    (fun scanning place => (scanning, place)) { scanner :=
      { scanner with carry := [] } } 0
  let (released, found) ← scanning.scanner.release input scanning.mark place
      scanning.found
  let carry ← input.since place
  .ok ({ released with carry := carry }, found.reverse)

def feed (counter : DepthCounter) (scanner : ByteScanner) (chunk : Text) :
    Checked (ByteScanner × List Segment.Piece) :=
  scanner.scan counter false (scanner.carry ++ chunk)

def openComment? (scanner : ByteScanner) : Option OpenComment :=
  if scanner.lexer.depth = 0 then none
  else if scanner.lexer.guarded then
    some ⟨.guard scanner.version, scanner.openedAt⟩
  else some ⟨.plain, scanner.openedAt⟩

def finish (counter : DepthCounter) (scanner : ByteScanner) :
    Checked (ByteScanner × List Segment.Piece × Option OpenComment) := do
  let (scanned, found) ← scanner.scan counter true scanner.carry
  let held : List Segment.Piece :=
    if scanned.lexer.depth ≠ 0 ∧ scanned.lexer.guarded = true then
      [.text scanned.block] else []
  .ok ({ scanned with lexer := {}, block := [], line := 1 }, found ++ held,
    scanned.openComment?)

end ByteScanner

/-- The scanner is where the one over characters is, if `seen` is what it read
since the mark. -/
structure Mirrors (scanner : ByteScanner) (seen : Text) (ideal : Scanner) :
    Prop where
  lexer_eq : ideal.lexer = scanner.lexer
  line_eq : ideal.line = scanner.line
  openedAt_eq : ideal.openedAt = scanner.openedAt
  inGuard : scanner.lexer.guarded = true →
    scanner.block ++ seen =
        guardMarker ++ ideal.digits ++ ideal.gathered.reverse ∧
      scanner.innerStart = size (guardMarker ++ ideal.digits) ∧
      scanner.version = versionOfDigits ideal.digits
  outside : scanner.lexer.guarded = false → scanner.block = [] ∧
    ideal.gathered.reverse = seen

variable {counter : DepthCounter} {scanner : ByteScanner} {ideal : Scanner}
  {seen front input piece tail : Text} {head : Char} {taken : Step}
  {after : Lexer} {scanning : Scanning} {atEnd : Bool}

theorem Mirrors.gather (mirrors : Mirrors scanner seen ideal) (piece : Text)
    (guarded : after.guarded = scanner.lexer.guarded) (line openedAt : Nat) :
    Mirrors
      { scanner with lexer := after, line := line, openedAt := openedAt }
      (seen ++ piece)
      (Scanner.gather
        { ideal with lexer := after, line := line, openedAt := openedAt }
        piece) where
  lexer_eq := rfl
  line_eq := rfl
  openedAt_eq := rfl
  inGuard := by
    intro inside
    rw [guarded] at inside
    obtain ⟨whole, start, version⟩ := mirrors.inGuard inside
    refine ⟨?_, start, version⟩
    simp only [Scanner.gather, List.reverse_append, List.reverse_reverse,
      ← List.append_assoc, whole]
  outside := by
    intro plain
    rw [guarded] at plain
    obtain ⟨block, gathered⟩ := mirrors.outside plain
    refine ⟨block, ?_⟩
    simp only [Scanner.gather, List.reverse_append, List.reverse_reverse,
      gathered]

/-- On its way the scanner has come through `front`, to where the one over
characters is, and the pieces that left are those segments. -/
def Reaches (scanning : Scanning) (front : Text) (ideal : Scanner)
    (segments : List Segment) : Prop :=
  ∃ done seen, front = done ++ seen ∧ scanning.mark = done.size ∧
    Mirrors scanning.scanner seen ideal ∧
      scanning.found = segments.map Segment.piece

/-- The scanner enters the characters of a step like the one over characters. -/
def Enters (scanning : Scanning) (front input piece : Text) (ideal : Scanner)
    (segments : List Segment) (octet : Char) (taken : Step) (after : Lexer) :
    Prop :=
  ∃ advanced entered new,
    scanning.advance input octet front.size taken after = .ok advanced ∧
    advanced.scanner.lexer = after ∧
    Reaches advanced (front ++ piece) entered (new.reverse ++ segments) ∧
    (scanning.scanner.lexer.Proper →
        ideal.advance taken after piece = (entered, new))

variable {segments : List Segment}

/-- A step that opens and closes no guard adds its characters to those that were
read. -/
theorem Reaches.pass {stepped : Lexer}
    (reaches : Reaches scanning front ideal segments) (input : Text)
    (outcome : Lexer.Outcome scanning.scanner.lexer (head :: tail)
      taken stepped)
    (guarded : after.guarded = scanning.scanner.lexer.guarded)
    (noOpening : ∀ count, taken ≠ .openGuard count)
    (noClosing : ¬(taken = .close ∧ scanning.scanner.lexer.guarded = true ∧
      after.depth = 0)) :
    Enters scanning front input ((head :: tail).take taken.consumed) ideal
      segments head taken after := by
  obtain ⟨done, seen, frontEq, marked, mirrors, found⟩ := reaches
  have lineEq := mirrors.line_eq
  have lexerEq := mirrors.lexer_eq
  have openedAtEq := mirrors.openedAt_eq
  have gathers {piece : Text} {taken : Step} (line openedAt : Nat)
      (advanced : scanning.advance input head front.size taken after =
        .ok { scanning with scanner := { scanning.scanner with
          lexer := after, line := line, openedAt := openedAt } })
      (entered : ideal.advance taken after piece =
        (Scanner.gather
          { ideal with lexer := after, line := line, openedAt := openedAt }
          piece, [])) :
      Enters scanning front input piece ideal segments head taken after := by
    refine ⟨_, _, [], advanced, rfl, ⟨done, seen ++ piece, ?_, marked,
      mirrors.gather piece guarded line openedAt, found⟩, fun _ => entered⟩
    rw [frontEq, List.append_assoc]
  have skips (count : Nat) :
      Enters scanning front input ((head :: tail).take (count + 1)) ideal
        segments head
        (.skip (count + 1)) after := by
    apply gathers (if head = '\n' then ideal.line + 1 else ideal.line)
      ideal.openedAt
    · simp only [Scanning.advance, Scanning.pass, lineEq, openedAtEq]
    · simp only [Scanner.advance, List.take_succ_cons, List.head?_cons,
        Option.some.injEq]
      split <;> rfl
  generalize inputEq : head :: tail = text at outcome
  cases outcome with
  | character first rest =>
      obtain ⟨rfl, rfl⟩ := List.cons.inj inputEq
      exact skips 0
  | dashes code rest =>
      obtain ⟨rfl, rfl⟩ := List.cons.inj inputEq
      exact skips 1
  | marker top rest =>
      obtain ⟨rfl, rfl⟩ := List.cons.inj inputEq
      exact skips 2
  | openGuard top digits rest nonempty allDigits =>
      exact absurd rfl (noOpening _)
  | openPlain code rest =>
      obtain ⟨rfl, rfl⟩ := List.cons.inj inputEq
      apply gathers ideal.line (if ideal.lexer.depth = 0 then ideal.line
        else ideal.openedAt)
      · simp only [Scanning.advance, Scanning.pass, lineEq, openedAtEq, lexerEq]
        split <;> simp
      · simp only [Scanner.advance]
        split <;> rfl
  | close inside rest =>
      obtain ⟨rfl, rfl⟩ := List.cons.inj inputEq
      have stays :
          ¬(scanning.scanner.lexer.guarded = true ∧ after.depth = 0) := by
        simpa using noClosing
      have idealStays : ¬(ideal.lexer.guarded = true ∧ after.depth = 0) := by
        rwa [lexerEq]
      apply gathers ideal.line ideal.openedAt
      · simp only [Scanning.advance, if_neg stays]
        simp [Scanning.pass, lineEq, openedAtEq]
      · simp only [Scanner.advance, if_neg idealStays]

theorem emitText_append (done seen rest : Text) (found : List Segment.Piece) :
    emitText (done ++ seen ++ rest) done.size (done ++ seen).size found =
      .ok (((Scanner.textSegment seen.reverse).reverse.map Segment.piece) ++
        found) := by
  cases seen with
  | nil => simp [emitText, Scanner.textSegment]
  | cons head tail =>
      have further : done.size < (done ++ head :: tail).size := by
        have positive := size_pos (List.cons_ne_nil head tail)
        rw [size_append]
        omega
      have cut := between_append done (head :: tail) rest
      rw [← List.append_assoc] at cut
      have visible : (head :: tail).reverse ≠ [] := by simp
      simp only [emitText, if_pos further, cut, Checked.ok_bind,
        Scanner.textSegment, if_neg visible, List.reverse_reverse]
      rfl

theorem Reaches.openGuard {digits behind : Text} {count : Nat} (octet : Char)
    (reaches : Reaches scanning front ideal segments)
    (whole : input = front ++ (guardMarker ++ (digits ++ behind)))
    (top : scanning.scanner.lexer.atTopLevel = true)
    (guarded : after.guarded = true)
    (sizeEq : size (guardMarker ++ digits) = count) :
    Enters scanning front input (guardMarker ++ digits) ideal segments octet
      (.openGuard count)
      after := by
  obtain ⟨done, seen, rfl, marked, mirrors, found⟩ := reaches
  have cutDigits : input.between ((done ++ seen).size + guardMarker.length)
      ((done ++ seen).size + count) = .ok digits := by
    have cut := between_append (done ++ seen ++ guardMarker) digits behind
    rw [size_append _ guardMarker, size_append (_ ++ guardMarker),
      size_append _ guardMarker, Nat.add_assoc, ← size_append guardMarker,
      sizeEq] at cut
    rw [whole, ← cut]
    simp only [List.append_assoc]
    rfl
  have cutText := emitText_append done seen (guardMarker ++ (digits ++ behind))
    scanning.found
  rw [← whole, ← marked] at cutText
  let advanced : Scanning :=
    { scanner := { scanning.scanner with
        lexer := after
        block := []
        innerStart := count
        version := versionOfDigits digits
        openedAt := scanning.scanner.line }
      mark := (done ++ seen).size
      found := (Scanner.textSegment seen.reverse).reverse.map Segment.piece ++
        scanning.found }
  let entered : Scanner :=
    { ideal with
      lexer := after
      gathered := []
      digits := digits
      openedAt := ideal.line }
  refine ⟨advanced, entered, Scanner.textSegment seen.reverse, ?_, rfl,
    ⟨done ++ seen, guardMarker ++ digits, rfl, rfl, ?_, ?_⟩, fun proper => ?_⟩
  · simp only [Scanning.advance, cutText, cutDigits, Checked.ok_bind]
    rfl
  · refine ⟨rfl, mirrors.line_eq, mirrors.line_eq,
      fun _ => ⟨?_, sizeEq.symm, rfl⟩, ?_⟩
    · simp [advanced, entered]
    · intro outside
      exact absurd (guarded.symm.trans outside) (by simp)
  · simp only [advanced, List.map_append, found]
  · -- At the top level no guard is open, so what was gathered is text.
    have outside : scanning.scanner.lexer.guarded = false := by
      rw [Bool.eq_false_iff]
      intro inside
      have deeper := proper inside
      simp only [Lexer.atTopLevel, Bool.and_eq_true, beq_iff_eq] at top
      omega
    obtain ⟨-, gathered⟩ := mirrors.outside outside
    simp only [Scanner.advance, ← gathered, List.reverse_reverse, guardMarker]
    rfl

theorem Reaches.close {behind : Text} (octet : Char)
    (reaches : Reaches scanning front ideal segments)
    (whole : input = front ++ (closingMarker ++ behind))
    (inside : scanning.scanner.lexer.guarded = true)
    (outermost : after.depth = 0) (outside : after.guarded = false) :
    Enters scanning front input closingMarker ideal segments octet
      .close after := by
  obtain ⟨done, seen, rfl, marked, mirrors, found⟩ := reaches
  obtain ⟨blockEq, start, version⟩ := mirrors.inGuard inside
  have openedAtEq := mirrors.openedAt_eq
  let guard : Guard := ⟨ideal.digits, ideal.gathered.reverse⟩
  have rawEq : scanning.scanner.block ++ (seen ++ closingMarker) =
      guard.raw := by
    rw [← List.append_assoc, blockEq]
    rfl
  have cut : input.between scanning.mark ((done ++ seen).size + 2) =
      .ok (seen ++ closingMarker) := by
    have cut := between_append done (seen ++ closingMarker) behind
    have wholeEq : done ++ (seen ++ closingMarker ++ behind) = input := by
      rw [whole]
      simp only [List.append_assoc]
    have stopEq : (done ++ (seen ++ closingMarker)).size =
        (done ++ seen).size + 2 := by
      rw [← List.append_assoc, size_append]
      rfl
    rwa [wholeEq, stopEq, ← marked] at cut
  have stopEq : Checked.minus guard.raw.size 2 =
      .ok (guard.opening ++ guard.inner).size := by
    have sizeEq : guard.raw.size = (guard.opening ++ guard.inner).size + 2 :=
      size_append (guard.opening ++ guard.inner) closingMarker
    rw [sizeEq, Checked.minus_add_right]
  have pieceEq : Segment.Piece.guard guard.raw scanning.scanner.version
      scanning.scanner.innerStart (guard.opening ++ guard.inner).size
        scanning.scanner.openedAt =
        (Segment.guard guard ideal.openedAt).piece := by
    rw [start, version, ← openedAtEq]
    rfl
  let advanced : Scanning :=
    { scanner := { scanning.scanner with lexer := after, block := [] }
      mark := (done ++ seen).size + 2
      found := (Segment.guard guard ideal.openedAt).piece :: scanning.found }
  let entered : Scanner := { ideal with lexer := after, gathered := [] }
  refine ⟨advanced, entered, [.guard guard ideal.openedAt], ?_, rfl,
    ⟨done ++ seen ++ closingMarker, [], (List.append_nil _).symm, ?_, ?_,
      ?_⟩, fun _ => ?_⟩
  · simp only [Scanning.advance, inside, outermost, and_self, if_true, cut,
      Checked.ok_bind, rawEq, stopEq, pieceEq, advanced]
  · rw [size_append]
    rfl
  · refine ⟨rfl, mirrors.line_eq, mirrors.openedAt_eq, fun guarded => ?_,
      fun _ => ⟨rfl, rfl⟩⟩
    exact absurd (guarded.symm.trans outside) (by simp)
  · simp only [advanced, List.reverse_singleton, List.singleton_append,
      List.map_cons, found]
  · have idealCloses : ideal.lexer.guarded = true ∧ after.depth = 0 := by
      rw [mirrors.lexer_eq]
      exact ⟨inside, outermost⟩
    simp only [Scanner.advance, if_pos idealCloses]
    rfl

theorem Reaches.enters {faith same : Prop} {later : Text}
    (reaches : Reaches scanning front ideal segments)
    (whole : input = front ++ head :: tail)
    (moves : Lexer.Moves counter faith later scanning.scanner.lexer atEnd
        (head :: tail) same taken after) (decided : taken ≠ .needMore)
    (sizeEq : size ((head :: tail).take taken.consumed) = taken.consumed) :
    Enters scanning front input ((head :: tail).take taken.consumed) ideal
      segments head taken
      after := by
  have outcome := moves.outcome decided
  by_cases opens : ∃ count, taken = .openGuard count
  · obtain ⟨count, rfl⟩ := opens
    obtain ⟨top, stepped, digits, behind, inputEq, -, -, countEq⟩ :=
      outcome.openGuard_spec
    have pieceEq : (head :: tail).take count = guardMarker ++ digits := by
      rw [inputEq, countEq, ← List.length_append, ← List.append_assoc,
        List.take_left]
    have guarded : after.guarded = true := by
      rw [moves.guarded_eq, stepped]
      rfl
    simp only [Step.consumed, pieceEq] at sizeEq ⊢
    exact reaches.openGuard head (inputEq ▸ whole) top guarded sizeEq
  · have noOpening (count : Nat) : taken ≠ .openGuard count := fun opened =>
      opens ⟨count, opened⟩
    by_cases closes :
        taken = .close ∧ scanning.scanner.lexer.guarded = true ∧ after.depth = 0
    · obtain ⟨rfl, inside, outermost⟩ := closes
      obtain ⟨deep, stepped, behind, inputEq⟩ := outcome.close_spec
      have afterEq : after = scanning.scanner.lexer.closeOne :=
        (moves.after_eq (by simp)).trans stepped
      have outside : after.guarded = false := by
        have start := Lexer.closeOne_eq_start deep (afterEq ▸ outermost)
        rw [afterEq, start]
      have pieceEq : (head :: tail).take Step.close.consumed =
          closingMarker := by
        rw [inputEq]
        rfl
      rw [pieceEq]
      exact reaches.close head (inputEq ▸ whole) inside outermost outside
    · have guarded : after.guarded = scanning.scanner.lexer.guarded := by
        have steppedStays :
            ¬(taken = .close ∧ scanning.scanner.lexer.guarded = true ∧
            (scanning.scanner.lexer.step atEnd (head :: tail)).2.depth =
              0) := by
          rintro ⟨rfl, inside, outermost⟩
          rw [← moves.after_eq (by simp)] at outermost
          exact closes ⟨rfl, inside, outermost⟩
        have plain :
            Lexer.Outcome ({ lexer := scanning.scanner.lexer } : Scanner).lexer
            (head :: tail) taken
              (scanning.scanner.lexer.step atEnd (head :: tail)).2 := outcome
        rw [moves.guarded_eq]
        exact Scanner.guarded_of_gathers plain noOpening steppedStays
      exact reaches.pass _ outcome guarded noOpening closes

/-- In front of `rest` the scanner goes on as the one over characters, to the
same end. -/
def InScan (counter : DepthCounter) (faith : Prop) (atEnd : Bool)
    (target : Scanner × List Segment) (scanning : Scanning)
    (front rest : Text) : Prop :=
  ∃ ideal segments, Reaches scanning front ideal segments ∧
    Lexer.Tracks counter faith [] scanning.scanner.lexer rest
      (Scanner.scanRest atEnd ideal segments rest = target ∧
        scanning.scanner.lexer.Proper)

def IsScanned (faith : Prop) (input : Text) (target : Scanner × List Segment)
    (answer : Scanning × Nat) : Prop :=
  ∃ front rest ideal segments, input = front ++ rest ∧ answer.2 = front.size ∧
    Reaches answer.1 front ideal segments ∧ answer.1.scanner.lexer.Quoting ∧
    (faith → ({ ideal with ahead := rest },
      segments) = target ∧ answer.1.scanner.lexer.Proper)

variable {faith : Prop} {target : Scanner × List Segment} {rest : Text}

theorem inScan_further {scanned : Scanning}
    (enters : Enters scanning front input ((head :: tail).take taken.consumed)
        ideal segments head taken after)
    (advanced : scanning.advance input head front.size taken after =
        .ok scanned) (lexerEq : ideal.lexer = scanning.scanner.lexer)
    (moves : Lexer.Moves counter faith [] scanning.scanner.lexer atEnd
        (head :: tail) (Scanner.scanRest atEnd ideal segments (head :: tail) =
        target ∧ scanning.scanner.lexer.Proper) taken after)
    (decided : taken ≠ .needMore) :
    InScan counter faith atEnd target scanned
      (front ++ (head :: tail).take taken.consumed)
      ((head :: tail).drop taken.consumed) := by
  obtain ⟨same, entered, new, advancedEq, scannedLexer, reaches, idealEq⟩ :=
    enters
  rw [advanced] at advancedEq
  obtain rfl := Except.ok.inj advancedEq
  refine ⟨entered, new.reverse ++ segments, reaches, ?_⟩
  rw [scannedLexer]
  apply (moves.tracks decided).imp
  rintro holds ⟨scans, proper⟩
  have stepEq := moves.step_eq holds
  rw [← lexerEq] at stepEq
  rw [Scanner.scanRest_of_decided segments stepEq decided, idealEq proper]
    at scans
  refine ⟨scans, ?_⟩
  have outcome := moves.outcome decided
  rw [moves.step_eq holds] at outcome
  exact outcome.proper proper

theorem pass_wide (scanning : Scanning) {octet : Char}
    (wide : isAscii octet = false) (after : Lexer) :
    scanning.pass octet after =
      { scanning with
        scanner := { scanning.scanner with lexer := after } } := by
  have other : octet ≠ '\n' := ne_of_wide wide (by decide)
  simp only [Scanning.pass, if_neg other]

private theorem takes_scan (whole : input = front ++ head :: tail)
    (inScan : InScan counter faith atEnd target scanning front (head :: tail)) :
    Takes (scanTurn counter input input.octets atEnd)
      (InScan counter faith atEnd target)
      (IsScanned faith input target) scanning front (head :: tail) := by
  obtain ⟨ideal, segments, reaches, tracks⟩ := inScan
  have lexerEq : ideal.lexer = scanning.scanner.lexer := by
    obtain ⟨_, _, _, _, mirrors, _⟩ := reaches
    exact mirrors.lexer_eq
  cases ascii : isAscii head with
  | false =>
      have moves := tracks.wideMoves ascii atEnd
      have outcome := moves.outcome (by simp)
      have enters := reaches.pass input outcome (Lexer.behindWide_guarded _)
        (by simp) (by simp)
      let scanned : Scanning :=
        { scanning with scanner := { scanning.scanner with
          lexer := scanning.scanner.lexer.behindWide } }
      have advanced : scanning.advance input head front.size (.skip 1)
          scanning.scanner.lexer.behindWide = .ok scanned :=
        congrArg Except.ok (pass_wide scanning ascii _)
      subst whole
      apply tracks.takes_wide ascii atEnd _ _
        (inScan_further enters advanced lexerEq moves (by simp))
      · intro octet wide found stepped
        have passed : scanning.pass octet scanning.scanner.lexer.behindWide =
          scanned :=
          pass_wide scanning wide _
        simp only [scanTurn, found, Checked.ok_bind, stepped, reduceCtorEq,
          if_false, Scanning.advance, passed]
        rfl
      · intro octet place _ _ wide found stepped
        have passed : scanned.pass octet scanning.scanner.lexer.behindWide =
          scanned :=
          pass_wide scanned wide _
        have steppedFrom : scanned.scanner.lexer.stepChecked counter
            (octets (front ++ head :: tail)) place atEnd =
              .ok (.skip 1, scanning.scanner.lexer.behindWide) := stepped
        simp only [scanTurn, found, Checked.ok_bind, steppedFrom, reduceCtorEq,
          if_false, Scanning.advance, passed]
        rfl
  | true =>
      obtain ⟨taken, after, stepped, sizeEq, moves⟩ :=
        tracks.step ascii front atEnd
      have found : (octets (front ++ head :: tail)).octetAt front.size =
          .ok head :=
        Lexer.octetAt_ascii ascii
      by_cases waits : taken = .needMore
      · subst waits
        apply Takes.stop (scanning, front.size)
        · subst whole
          simp only [scanTurn, found, Checked.ok_bind, stepped, if_true]
        · refine ⟨front, head :: tail, ideal, segments, whole, rfl, reaches,
            tracks.quoting, fun holds => ?_⟩
          obtain ⟨scans, proper⟩ := (tracks.faithful holds).2
          refine ⟨?_, proper⟩
          have stepEq := moves.step_eq holds
          rw [← lexerEq] at stepEq
          rw [Scanner.scanRest, stepEq, if_pos rfl] at scans
          exact scans
      · have enters := reaches.enters whole moves waits sizeEq
        obtain ⟨scanned, _, _, advanced, _⟩ :=
          reaches.enters whole moves waits sizeEq
        have further := inScan_further enters advanced lexerEq moves waits
        apply Takes.ofCount (moves.consumed_pos waits) sizeEq _ further
        subst whole
        simp only [scanTurn, found, Checked.ok_bind, stepped, if_neg waits,
          advanced]

/-- Between two chunks the scanner is where the one over characters is. -/
structure Stands (faith : Prop) (scanner : ByteScanner) (ideal : Scanner) :
    Prop where
  mirrors : Mirrors scanner [] ideal
  carry_eq : scanner.carry = ideal.ahead
  quoting : scanner.lexer.Quoting
  proper : faith → scanner.lexer.Proper

theorem stands_start : Stands faith {} {} where
  mirrors := ⟨rfl, rfl, rfl, by simp, by simp⟩
  carry_eq := rfl
  quoting := Lexer.quoting_start
  proper := fun _ => Lexer.proper_start

/-- What was read since the mark goes into the block of an open guard, or
leaves. -/
theorem release_spec {scanning : Scanning}
    (reaches : Reaches scanning front ideal segments) (rest : Text) :
    ∃ released, scanning.scanner.release (front ++ rest) scanning.mark
      front.size scanning.found =
        .ok (released,
          ((ideal.release.2.reverse ++ segments).map Segment.piece)) ∧
      Mirrors released [] ideal.release.1 ∧
        released.lexer = scanning.scanner.lexer := by
  obtain ⟨done, seen, rfl, marked, mirrors, found⟩ := reaches
  have lexerEq := mirrors.lexer_eq
  cases guarded : scanning.scanner.lexer.guarded with
  | true =>
      obtain ⟨blockEq, start, version⟩ := mirrors.inGuard guarded
      have cut := between_append done seen rest
      rw [← List.append_assoc, ← marked] at cut
      have idealEq : ideal.release = (ideal, []) := by
        rw [Scanner.release, lexerEq, guarded, if_pos rfl]
      rw [idealEq]
      refine ⟨{ scanning.scanner with block := scanning.scanner.block ++ seen },
        ?_, ?_, rfl⟩
      · simp only [ByteScanner.release, guarded, if_true, cut, Checked.ok_bind,
          found]
        rfl
      · refine ⟨lexerEq, mirrors.line_eq, mirrors.openedAt_eq,
          fun _ => ⟨?_, start, version⟩, fun outside => ?_⟩
        · rw [List.append_nil, blockEq]
        · exact absurd (guarded.symm.trans outside) (by simp)
  | false =>
      obtain ⟨block, gathered⟩ := mirrors.outside guarded
      have cut := emitText_append done seen rest scanning.found
      rw [← marked, found] at cut
      have idealEq : ideal.release =
          ({ ideal with gathered := [] },
            Scanner.textSegment ideal.gathered) := by
        rw [Scanner.release, lexerEq, guarded, if_neg Bool.false_ne_true]
      rw [idealEq, ← List.reverse_reverse ideal.gathered, gathered]
      refine ⟨scanning.scanner, ?_, ?_, rfl⟩
      · simp only [ByteScanner.release, guarded, Bool.false_eq_true, if_false,
          cut, Checked.ok_bind, found, List.map_append]
      · exact ⟨lexerEq, mirrors.line_eq, mirrors.openedAt_eq, fun inside =>
          absurd (guarded.symm.trans inside) (by simp), fun _ => ⟨block, rfl⟩⟩

/-- A scan comes to the end of what can be decided, and what leaves are
segments. -/
theorem scan_spec (stands : Stands faith scanner ideal) (atEnd : Bool)
    {input : Text}
    (keeps : counter.Keeps faith (scanner.lexer.depth + openings input)) :
    ∃ scanned segments idealScanned,
      scanner.scan counter atEnd input =
        .ok (scanned, segments.map Segment.piece) ∧
      Stands faith scanned idealScanned ∧
      (faith → ideal.scan atEnd input = (idealScanned, segments)) := by
  have start :
      InScan counter faith atEnd (Scanner.scanRest atEnd ideal [] input)
      { scanner := { scanner with carry := [] } } [] input := by
    have mirrors := stands.mirrors
    refine ⟨ideal, [], ⟨[], [], rfl, rfl, ⟨mirrors.lexer_eq, mirrors.line_eq,
      mirrors.openedAt_eq, mirrors.inGuard, mirrors.outside⟩, rfl⟩, ?_⟩
    exact .of_keeps stands.quoting keeps fun holds => ⟨rfl, stands.proper holds⟩
  have ends (scanning : Scanning)
      (done : InScan counter faith atEnd (Scanner.scanRest atEnd ideal [] input)
        scanning
        input []) :
      IsScanned faith input (Scanner.scanRest atEnd ideal [] input)
        (scanning, input.size) := by
    obtain ⟨last, segments, reaches, tracks⟩ := done
    refine ⟨input, [], last, segments, (List.append_nil input).symm, rfl,
      reaches, tracks.quoting, fun holds => ?_⟩
    obtain ⟨scans, proper⟩ := (tracks.faithful holds).2
    rw [Scanner.scanRest] at scans
    exact ⟨scans, proper⟩
  have walked : ∃ answer,
      walk input.size (scanTurn counter input input.octets atEnd)
        (fun scanning place => (scanning, place))
        { scanner := { scanner with carry := [] } } 0 =
          .ok answer ∧
      IsScanned faith input (Scanner.scanRest atEnd ideal [] input) answer :=
    walk_spec ends (fun _ _ _ _ => takes_scan) _ [] input rfl start
  obtain ⟨⟨scanning, place⟩, walkEq, front, rest, last, segments, rfl, rfl,
    reaches, quoting, same⟩ := walked
  dsimp only at reaches quoting same
  obtain ⟨released, releaseEq, mirrors, lexerEq⟩ := release_spec reaches rest
  refine ⟨{ released with carry := rest },
    (last.release.2.reverse ++ segments).reverse,
    { last.release.1 with ahead := rest }, ?_, ⟨?_, rfl, ?_, ?_⟩, fun holds =>
      ?_⟩
  · simp only [ByteScanner.scan, walkEq, Checked.ok_bind, releaseEq,
      since_append, List.map_reverse]
  · exact ⟨mirrors.lexer_eq, mirrors.line_eq, mirrors.openedAt_eq,
      mirrors.inGuard, mirrors.outside⟩
  · exact lexerEq ▸ quoting
  · exact fun holds => lexerEq ▸ (same holds).2
  · have idealRelease : Scanner.release { last with ahead := rest } =
        ({ last.release.1 with ahead := rest }, last.release.2) := by
      unfold Scanner.release
      dsimp only
      split <;> rfl
    simp only [Scanner.scan, ← (same holds).1, idealRelease,
      List.reverse_append, List.reverse_reverse]

theorem feed_spec (stands : Stands faith scanner ideal) (chunk : Text)
    (keeps : counter.Keeps faith
        (ideal.lexer.depth + openings (ideal.ahead ++ chunk))) :
    ∃ fed segments idealFed,
      scanner.feed counter chunk = .ok (fed, segments.map Segment.piece) ∧
      Stands faith fed idealFed ∧
      (faith → ideal.feed chunk = (idealFed, segments)) := by
  rw [stands.mirrors.lexer_eq] at keeps
  rw [ByteScanner.feed, stands.carry_eq]
  exact scan_spec stands false keeps

theorem Mirrors.openComment?_eq (mirrors : Mirrors scanner seen ideal) :
    ideal.openComment? = scanner.openComment? := by
  have lexerEq := mirrors.lexer_eq
  have openedAtEq := mirrors.openedAt_eq
  unfold Scanner.openComment? Scanner.mode ByteScanner.openComment?
  rw [lexerEq, openedAtEq]
  by_cases outside : scanner.lexer.depth = 0
  · simp only [if_pos outside]
  · simp only [if_neg outside]
    cases guarded : scanner.lexer.guarded with
    | false => simp
    | true =>
        obtain ⟨-, -, version⟩ := mirrors.inGuard guarded
        simp [version]

theorem Mirrors.openGuard_eq (mirrors : Mirrors scanner [] ideal) :
    ideal.openGuard.map Segment.piece =
      if scanner.lexer.depth ≠ 0 ∧ scanner.lexer.guarded = true then
        [.text scanner.block]
      else [] := by
  unfold Scanner.openGuard Scanner.mode
  rw [mirrors.lexer_eq]
  by_cases outside : scanner.lexer.depth = 0
  · simp [outside]
  · cases guarded : scanner.lexer.guarded with
    | false => simp [outside]
    | true =>
        obtain ⟨blockEq, -, -⟩ := mirrors.inGuard guarded
        rw [List.append_nil] at blockEq
        simp [outside, Segment.piece, blockEq]

/-- What is still held leaves at the end, an open comment is reported, and the
scanners stand in front of the next stream. -/
theorem finish_spec (stands : Stands faith scanner ideal)
    (keeps : counter.Keeps faith (ideal.lexer.depth + openings ideal.ahead)) :
    ∃ finished segments openComment idealFinished,
      scanner.finish counter = .ok (finished, segments.map Segment.piece,
        openComment) ∧
      Stands faith finished idealFinished ∧
      (faith → ideal.finish = (idealFinished, segments, openComment)) := by
  rw [stands.mirrors.lexer_eq, ← stands.carry_eq] at keeps
  obtain ⟨scanned, segments, last, scanEq, ended, same⟩ :=
    scan_spec stands true keeps
  refine ⟨{ scanned with lexer := {}, block := [], line := 1 },
    segments ++ last.openGuard,
    last.openComment?, { last with lexer := {}, gathered := [], line := 1 }, ?_,
      ?_,
    fun holds => ?_⟩
  · simp only [ByteScanner.finish, scanEq, Checked.ok_bind, List.map_append,
      ended.mirrors.openGuard_eq, ended.mirrors.openComment?_eq]
  · exact ⟨⟨rfl, rfl, ended.mirrors.openedAt_eq, by simp, fun _ => ⟨rfl, rfl⟩⟩,
      ended.carry_eq, Lexer.quoting_start, fun _ => Lexer.proper_start⟩
  · rw [stands.carry_eq] at same
    simp only [Scanner.finish, same holds]
    rfl

end Offset

end SqlDump
