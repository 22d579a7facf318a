import SqlDump.Proofs.Offset.Lookahead
import SqlDump.Proofs.Statement.Delimiters

/-!
# Assembling units by bytes

An assembler that keeps its unfinished text in one buffer, with the offset up to
which it is lexed.  Every unit is cut out of the buffer between two offsets, and
what was cut leaves the buffer at the end of the push.
-/

namespace SqlDump

open Text

namespace Offset

structure ByteAssembler where
  pending : Text := []
  /-- The text up to this offset is lexed. -/
  scanPlace : Nat := 0
  lexer : Lexer := {}
  delimiter : Delimiter := .semicolon
  tokenSeen : Bool := false
  atLineStart : Bool := true
  statements : Nat := 0
deriving DecidableEq, Repr

/-- An assembler on its way through its buffer. -/
structure Draining where
  assembler : ByteAssembler
  /-- Where the unfinished unit begins. -/
  start : Nat := 0
  found : List StatementUnit := []

namespace Draining

/-- Cut the unit that ends at the offset. -/
def emit (draining : Draining) (buffer : Text) (stop : Nat) (kind : UnitKind) :
    Checked Draining := do
  let text ← buffer.between draining.start stop
  .ok {
    assembler := { draining.assembler with
      tokenSeen := false
      atLineStart := text.endsWith ['\n'] }
    start := stop
    found := ⟨kind, draining.assembler.atLineStart, text⟩ :: draining.found }

/-- A directive that begins at the offset; only the first token of a unit can be
one. -/
def directiveAt (draining : Draining) (buffer : Text) (atEnd : Bool)
    (octet : Char) (place : Nat) : Checked (Probe Nat) :=
  if draining.assembler.lexer.atTopLevel && !isAsciiBlank octet &&
    !draining.assembler.tokenSeen &&
      octet.toLower == 'd' then do
    let rest ← buffer.since place
    directiveSize atEnd rest
  else .ok .absent

def takeDirective (draining : Draining) (buffer : Text) (place length : Nat) :
    Checked Draining := do
  let arguments ←
      buffer.between (place + directiveKeyword.length) (place + length)
  let assembler := { draining.assembler with
    delimiter :=
      (Delimiter.ofArguments? arguments).getD draining.assembler.delimiter }
  { draining with assembler := assembler }.emit buffer (place + length)
    .directive

def takeStatement (draining : Draining) (buffer : Text) (stop : Nat) :
    Checked Draining :=
  let assembler :=
    { draining.assembler with statements := draining.assembler.statements + 1 }
  { draining with assembler := assembler }.emit buffer stop .statement

def lex (draining : Draining) (octet : Char) (taken : Step) (after : Lexer) :
    Draining :=
  { draining with
    assembler := { draining.assembler with
      lexer := after
      tokenSeen := draining.assembler.tokenSeen ||
        (draining.assembler.lexer.atTopLevel && !isAsciiBlank octet &&
          taken != .openPlain &&
          after.lex != .lineComment) } }

end Draining

/-- The bytes from the offset on may turn out to begin with the terminator. -/
def beginsDelimiter (draining : Draining) (octets : Text) (place : Nat) :
    Checked Bool := do
  let rest ← octets.octetsSince place
  let left ← Checked.minus octets.length place
  let delimiter := draining.assembler.delimiter.text
  .ok (draining.assembler.lexer.atTopLevel && decide (left < delimiter.size) &&
    rest.isPrefixOf delimiter.octets)

def lexUnit (counter : DepthCounter) (octets : Text) (atEnd : Bool)
    (draining : Draining) (octet : Char) (place : Nat) :
    Checked (Turn Draining (Draining × Nat)) := do
  let (taken, after) ←
      draining.assembler.lexer.stepChecked counter octets place atEnd
  if taken = .needMore then .ok (.stop (draining, place))
  else .ok (.goOn (draining.lex octet taken after) taken.consumed)

/-- A turn at a byte that begins no directive. -/
def unitTurn (counter : DepthCounter) (buffer octets : Text) (atEnd : Bool)
    (draining : Draining) (octet : Char) (place : Nat) :
    Checked (Turn Draining (Draining × Nat)) := do
  let rest ← octets.octetsSince place
  let delimiter := draining.assembler.delimiter.text
  if draining.assembler.lexer.atTopLevel &&
    delimiter.octets.isPrefixOf rest then do
    let behind ← octets.octetsSince (place + delimiter.size)
    match unitTail? atEnd behind with
    | none => .ok (.stop (draining, place))
    | some tail => do
        let taken ←
            draining.takeStatement buffer (place + delimiter.size + tail)
        .ok (.goOn taken (delimiter.size + tail))
  else do
    let waits ← beginsDelimiter draining octets place
    if waits && !atEnd then .ok (.stop (draining, place))
    else lexUnit counter octets atEnd draining octet place

def drainTurn (counter : DepthCounter) (buffer octets : Text) (atEnd : Bool)
    (draining : Draining) (place : Nat) :
    Checked (Turn Draining (Draining × Nat)) := do
  let octet ← octets.octetAt place
  match ← draining.directiveAt buffer atEnd octet place with
  | .needMore => .ok (.stop (draining, place))
  | .found length => do
      let taken ← draining.takeDirective buffer place length
      .ok (.goOn taken length)
  | .absent => unitTurn counter buffer octets atEnd draining octet place

namespace ByteAssembler

def drain (counter : DepthCounter) (assembler : ByteAssembler) (atEnd : Bool) :
    Checked (ByteAssembler × List StatementUnit) := do
  let buffer := assembler.pending
  let (draining, place) ←
      walk buffer.size (drainTurn counter buffer buffer.octets atEnd)
    (fun draining place => (draining, place)) { assembler := assembler }
      assembler.scanPlace
  let rest ← buffer.since draining.start
  let scanPlace ← Checked.minus place draining.start
  .ok ({ draining.assembler with pending := rest, scanPlace := scanPlace },
    draining.found.reverse)

def push (counter : DepthCounter) (assembler : ByteAssembler) (text : Text) :
    Checked (ByteAssembler × List StatementUnit) :=
  { assembler with pending := assembler.pending ++ text }.drain counter false

end ByteAssembler

/-- The beginning of a statement that a report shows. -/
def preview (text : Text) : Checked Text :=
  let trimmed := text.trim
  if StatementAssembler.previewLength < trimmed.length then do
    let front ←
        trimmed.upTo (size (trimmed.take StatementAssembler.previewLength))
    .ok (front ++ ['.', '.', '.'])
  else .ok trimmed

namespace ByteAssembler

def unfinished? (assembler : ByteAssembler) : Checked (Option Text) :=
  if assembler.tokenSeen then do
    let shown ← preview assembler.pending
    .ok (some shown)
  else .ok none

def finish (counter : DepthCounter) (assembler : ByteAssembler) :
    Checked (ByteAssembler × List StatementUnit × Option Text) := do
  let (drained, units) ← assembler.drain counter true
  let shown ← drained.unfinished?
  let trailing : List StatementUnit :=
    if drained.pending = [] then []
    else [⟨.trailing, drained.atLineStart, drained.pending⟩]
  .ok ({ delimiter := drained.delimiter, statements := drained.statements },
    units ++ trailing, shown)

end ByteAssembler

structure SameState (assembler : ByteAssembler) (ideal : StatementAssembler) :
    Prop where
  lexer_eq : ideal.lexer = assembler.lexer
  delimiter_eq : ideal.delimiter = assembler.delimiter
  tokenSeen_eq : ideal.tokenSeen = assembler.tokenSeen
  atLineStart_eq : ideal.atLineStart = assembler.atLineStart
  statements_eq : ideal.statements = assembler.statements

/-- On its way the assembler has come through `front`, to where the one over
characters is. -/
def Arrives (draining : Draining) (front rest : Text)
    (ideal : StatementAssembler) : Prop :=
  ∃ done, front = done ++ ideal.lexed.reverse ∧ draining.start = done.size ∧
    ideal.ahead = rest ∧ SameState draining.assembler ideal

variable {counter : DepthCounter} {draining : Draining}
  {ideal : StatementAssembler}
  {front rest buffer : Text} {head octet : Char} {tail : Text} {atEnd : Bool}

private theorem head?_reverse_eq_endsWith (text : Text) (last : Char) :
    (text.reverse.head? == some last) = text.endsWith [last] := by
  unfold endsWith List.isSuffixOf
  cases text.reverse with
  | nil => rfl
  | cons head tail =>
      change (head == last) = (last == head && List.isPrefixOf [] tail)
      rw [List.isPrefixOf_nil_left, Bool.and_true, Bool.beq_comm]

private theorem cut_eq (ideal : StatementAssembler) (kind : UnitKind)
    {piece behind : Text} (ahead : ideal.ahead = piece ++ behind) :
    ideal.cut kind piece.length =
      ({ ideal with
          lexed := []
          ahead := behind
          tokenSeen := false
          atLineStart := Text.endsWith (ideal.lexed.reverse ++ piece) ['\n'] },
        ⟨kind, ideal.atLineStart, ideal.lexed.reverse ++ piece⟩) := by
  have reversedEq : (ideal.ahead.take piece.length).reverse ++ ideal.lexed =
      (ideal.lexed.reverse ++ piece).reverse := by
    rw [ahead, List.take_left, List.reverse_append, List.reverse_reverse]
  have aheadEq : ideal.ahead.drop piece.length = behind := by
    rw [ahead, List.drop_left]
  simp only [StatementAssembler.cut, reversedEq, aheadEq,
    head?_reverse_eq_endsWith, List.reverse_reverse]

theorem Arrives.emit {piece behind : Text}
    (arrives : Arrives draining front (piece ++ behind) ideal)
    (whole : buffer = front ++ (piece ++ behind)) (kind : UnitKind) :
    ∃ emitted, draining.emit buffer (front ++ piece).size kind = .ok emitted ∧
      Arrives emitted (front ++ piece) behind (ideal.cut kind piece.length).1 ∧
      emitted.found = (ideal.cut kind piece.length).2 :: draining.found := by
  obtain ⟨done, rfl, started, ahead, same⟩ := arrives
  have cut :
      buffer.between draining.start
        (done ++ ideal.lexed.reverse ++ piece).size =
      .ok (ideal.lexed.reverse ++ piece) := by
    have parts := between_append done (ideal.lexed.reverse ++ piece) behind
    have wholeEq : done ++ (ideal.lexed.reverse ++ piece ++ behind) =
        buffer := by
      rw [whole]
      simp only [List.append_assoc]
    rwa [wholeEq, ← started, ← List.append_assoc] at parts
  let emitted : Draining :=
    { assembler := { draining.assembler with
        tokenSeen := false
        atLineStart := Text.endsWith (ideal.lexed.reverse ++ piece) ['\n'] }
      start := (done ++ ideal.lexed.reverse ++ piece).size
      found := ⟨kind, draining.assembler.atLineStart,
        ideal.lexed.reverse ++ piece⟩ ::
        draining.found }
  rw [cut_eq ideal kind ahead]
  refine ⟨emitted, ?_, ⟨done ++ ideal.lexed.reverse ++ piece, ?_, rfl, rfl, ?_⟩,
    ?_⟩
  · simp only [Draining.emit, cut, Checked.ok_bind]
    rfl
  · simp
  · exact ⟨same.lexer_eq, same.delimiter_eq, rfl, rfl, same.statements_eq⟩
  · rw [same.atLineStart_eq]

/-- In front of `rest` the assembler goes on as the one over characters, to the
same end. -/
def InDrain (counter : DepthCounter) (faith : Prop) (atEnd : Bool)
    (target : StatementAssembler × List StatementUnit) (draining : Draining)
    (front rest : Text) : Prop :=
  ∃ ideal, Arrives draining front rest ideal ∧
    Lexer.Tracks counter faith [] draining.assembler.lexer rest
      (ideal.run atEnd draining.found = target)

/-- The assembler has stopped in front of the text that waits for more. -/
def IsDrained (faith : Prop) (buffer : Text)
    (target : StatementAssembler × List StatementUnit)
    (answer : Draining × Nat) : Prop :=
  ∃ front rest ideal, buffer = front ++ rest ∧ answer.2 = front.size ∧
    Arrives answer.1 front rest ideal ∧ answer.1.assembler.lexer.Quoting ∧
    (faith → (ideal, answer.1.found.reverse) = target)

variable {faith : Prop} {target : StatementAssembler × List StatementUnit}

/-- The first byte of a character: the character itself or none of ASCII. -/
def IsFirst (octet head : Char) : Prop :=
  octet = head ∨ isAscii octet = false ∧ isAscii head = false

theorem IsFirst.toLower_eq (first : IsFirst octet head) :
    (octet.toLower == 'd') = (head.toLower == 'd') := by
  rcases first with rfl | ⟨wide, wideHead⟩
  · rfl
  · have other {character : Char} (wide : isAscii character = false) :
        (character.toLower == 'd') = false := by
      rw [beq_eq_false_iff_ne]
      apply ne_of_wide _ (by decide)
      rwa [isAscii_toLower]
    rw [other wide, other wideHead]

private theorem isAsciiBlank_of_toLower
    (letter : (octet.toLower == 'd') = true) :
    isAsciiBlank octet = false := by
  rw [Bool.eq_false_iff]
  intro blank
  simp only [isAsciiBlank, Bool.or_eq_true, beq_iff_eq] at blank
  rcases blank with (((rfl | rfl) | rfl) | rfl) | rfl <;> simp at letter

theorem IsFirst.isAsciiBlank_eq (first : IsFirst octet head) :
    isAsciiBlank octet = isAsciiBlank head := by
  rcases first with rfl | ⟨wide, wideHead⟩
  · rfl
  · rw [isAsciiBlank_wide wide, isAsciiBlank_wide wideHead]

theorem directiveAt_eq (atEnd : Bool) (whole : buffer = front ++ head :: tail)
    (arrives : Arrives draining front (head :: tail) ideal)
    (first : IsFirst octet head) :
    draining.directiveAt buffer atEnd octet front.size =
      .ok ((ideal.directiveProbe atEnd).map fun length =>
        size ((head :: tail).take length)) := by
  obtain ⟨done, -, -, ahead, same⟩ := arrives
  have cut := since_append front (head :: tail)
  rw [← whole] at cut
  simp only [Draining.directiveAt, StatementAssembler.directiveProbe, cut,
    Checked.ok_bind, directiveSize_eq, ahead, same.lexer_eq, same.tokenSeen_eq,
    List.head?_cons, Option.any_some]
  cases letter : head.toLower == 'd' with
  | false =>
      rw [first.toLower_eq, letter]
      simp [Probe.map]
  | true =>
      have letterEq := first.toLower_eq.trans letter
      simp only [isAsciiBlank_of_toLower letterEq, letterEq, Bool.not_false,
        Bool.and_true]
      split <;> rfl

theorem Arrives.lexer_eq (arrives : Arrives draining front rest ideal) :
    draining.assembler.lexer = ideal.lexer := by
  obtain ⟨_, _, _, _, same⟩ := arrives
  exact same.lexer_eq.symm

theorem Arrives.ahead_eq (arrives : Arrives draining front rest ideal) :
    ideal.ahead = rest := by
  obtain ⟨_, _, _, ahead, _⟩ := arrives
  exact ahead

theorem Arrives.takeDirective {piece behind : Text}
    (arrives : Arrives draining front (piece ++ behind) ideal)
    (whole : buffer = front ++ (piece ++ behind))
    (found : directiveLength atEnd (piece ++ behind) = .found piece.length) :
    ∃ emitted, draining.takeDirective buffer front.size piece.size =
      .ok emitted ∧
      Arrives emitted (front ++ piece) behind
        (ideal.takeDirective piece.length).1 ∧
      emitted.found = (ideal.takeDirective piece.length).2 ::
        draining.found := by
  have atTheEnd : directiveLength true (piece ++ behind) =
      .found piece.length := by
    cases atEnd with
    | true => exact found
    | false =>
        have more := directiveLength_append_of_found true [] found
        rwa [List.append_nil] at more
  obtain ⟨keyword, padding, arguments, lineBreak, takeEq, lengthEq, sameWord, -,
    -, -⟩ :=
    directiveLength_spec atTheEnd
  rw [List.take_left] at takeEq
  have keywordSize : keyword.size = directiveKeyword.length := by
    rw [size_of_ascii
      (isAscii_of_sameAsciiWord sameWord isAscii_directiveKeyword), lengthEq]
  have cut : buffer.between (front.size + directiveKeyword.length)
      (front.size + piece.size) =
      .ok (padding :: (arguments ++ lineBreak)) := by
    have parts :=
      between_append (front ++ keyword) (padding :: (arguments ++ lineBreak))
        behind
    have wholeEq :
        front ++ keyword ++ (padding :: (arguments ++ lineBreak) ++ behind) =
          buffer := by
      rw [whole, takeEq]
      simp only [List.append_assoc]
    have stopEq : front ++ keyword ++ padding :: (arguments ++ lineBreak) =
        front ++ piece := by
      rw [takeEq, List.append_assoc]
    rwa [wholeEq, stopEq, size_append, size_append, keywordSize] at parts
  have argumentsEq :
      ((piece ++ behind).take piece.length).drop directiveKeyword.length =
        padding :: (arguments ++ lineBreak) := by
    rw [List.take_left, takeEq, List.drop_left' lengthEq]
  obtain ⟨done, frontEq, started, ahead, same⟩ := arrives
  let delimiter :=
    (Delimiter.ofArguments? (padding :: (arguments ++ lineBreak))).getD
    ideal.delimiter
  let directed : Draining :=
    { draining with
      assembler := { draining.assembler with delimiter := delimiter } }
  have arrivesThen : Arrives directed front (piece ++ behind)
      { ideal with delimiter := delimiter } :=
    ⟨done, frontEq, started, ahead, same.lexer_eq, rfl, same.tokenSeen_eq,
      same.atLineStart_eq, same.statements_eq⟩
  obtain ⟨emitted, emittedEq, further, foundEq⟩ :=
    arrivesThen.emit whole .directive
  have idealEq : ideal.takeDirective piece.length =
      StatementAssembler.cut { ideal with delimiter := delimiter } .directive
        piece.length := by
    simp only [StatementAssembler.takeDirective, ahead, argumentsEq, delimiter]
  rw [idealEq]
  refine ⟨emitted, ?_, further, foundEq⟩
  simp only [Draining.takeDirective, cut, Checked.ok_bind, ← same.delimiter_eq]
  rw [← size_append]
  exact emittedEq

theorem Arrives.takeStatement {behind : Text} {count : Nat}
    (arrives : Arrives draining front (ideal.delimiter.text ++ behind) ideal)
    (whole : buffer = front ++ (ideal.delimiter.text ++ behind))
    (fits : count ≤ behind.length) :
    ∃ emitted,
      draining.takeStatement buffer
        (front ++ (ideal.delimiter.text ++ behind.take count)).size =
        .ok emitted ∧
      Arrives emitted (front ++ (ideal.delimiter.text ++ behind.take count))
        (behind.drop count)
        (ideal.takeStatement count).1 ∧
      emitted.found = (ideal.takeStatement count).2 :: draining.found := by
  obtain ⟨done, frontEq, started, ahead, same⟩ := arrives
  have parts : ideal.delimiter.text ++ behind.take count ++ behind.drop count =
      ideal.delimiter.text ++ behind := by
    rw [List.append_assoc, List.take_append_drop]
  have lengthEq : (ideal.delimiter.text ++ behind.take count).length =
      ideal.delimiter.text.length + count := by
    rw [List.length_append, List.length_take, Nat.min_eq_left fits]
  let counted : Draining :=
    { draining with assembler := { draining.assembler with
      statements := draining.assembler.statements + 1 } }
  have arrivesThen : Arrives counted front
      (ideal.delimiter.text ++ behind.take count ++ behind.drop count)
      { ideal with statements := ideal.statements + 1 } := by
    rw [parts]
    exact ⟨done, frontEq, started, ahead, same.lexer_eq, same.delimiter_eq,
      same.tokenSeen_eq,
      same.atLineStart_eq, congrArg (· + 1) same.statements_eq⟩
  rw [← parts] at whole
  obtain ⟨emitted, emittedEq, further, foundEq⟩ :=
    arrivesThen.emit whole .statement
  rw [lengthEq] at further foundEq
  exact ⟨emitted, emittedEq, further, foundEq⟩

/-- Where the assembler over characters waits, both stop. -/
theorem Takes.drained (whole : buffer = front ++ rest)
    (arrives : Arrives draining front rest ideal)
    (tracks : Lexer.Tracks counter faith [] draining.assembler.lexer rest
      (ideal.run atEnd draining.found = target))
    (stops : drainTurn counter buffer buffer.octets atEnd draining front.size =
      .ok (.stop (draining, front.size)))
    (waits : faith → ideal.move? atEnd = none) :
    Takes (drainTurn counter buffer buffer.octets atEnd)
      (InDrain counter faith atEnd target)
      (IsDrained faith buffer target) draining front rest := by
  refine .stop _ stops ⟨front, rest, ideal, whole, rfl, arrives, tracks.quoting,
    fun holds => ?_⟩
  have same := (tracks.faithful holds).2
  rwa [StatementAssembler.run_of_none _ (waits holds)] at same

theorem Takes.cut {piece behind : Text} {emitted : Draining}
    {cut : StatementAssembler × StatementUnit} (nonempty : piece ≠ [])
    (tracks : Lexer.Tracks counter faith [] draining.assembler.lexer
        (piece ++ behind) (ideal.run atEnd draining.found = target))
    (takes : drainTurn counter buffer buffer.octets atEnd draining front.size =
        .ok (.goOn emitted piece.size))
    (arrives : Arrives emitted (front ++ piece) behind cut.1)
    (found : emitted.found = cut.2 :: draining.found)
    (lexerEq : emitted.assembler.lexer = draining.assembler.lexer)
    (moves : ideal.move? atEnd = some (cut.1, some cut.2)) :
    Takes (drainTurn counter buffer buffer.octets atEnd)
      (InDrain counter faith atEnd target)
      (IsDrained faith buffer target) draining front (piece ++ behind) := by
  refine .piece emitted nonempty takes ⟨cut.1, arrives, ?_⟩
  rw [lexerEq, found]
  apply tracks.skip.imp
  intro _ same
  rwa [StatementAssembler.run_of_some _ moves] at same

theorem isPrefixOf_octets (word text : Text) :
    word.octets.isPrefixOf text.octets = word.isPrefixOf text := by
  rw [Bool.eq_iff_iff, List.isPrefixOf_iff_prefix, List.isPrefixOf_iff_prefix,
    octets_prefix_iff]

/-- In front of text that does not begin with the terminator, the bytes tell
whether it may. -/
theorem beginsDelimiter_eq (whole : buffer = front ++ rest)
    (arrives : Arrives draining front rest ideal)
    (other : ideal.behindDelimiter? = none) :
    beginsDelimiter draining buffer.octets front.size =
      .ok ideal.beginsDelimiter := by
  obtain ⟨-, -, -, ahead, same⟩ := arrives
  have left : Checked.minus buffer.octets.length front.size =
      .ok rest.size := by
    rw [length_octets, whole, size_append, Checked.minus_add]
  have cut := octetsSince_append front rest
  rw [← whole] at cut
  simp only [beginsDelimiter, cut, left, Checked.ok_bind, isPrefixOf_octets,
    StatementAssembler.beginsDelimiter, ← same.delimiter_eq, ← same.lexer_eq,
    ahead]
  cases top : ideal.lexer.atTopLevel with
  | false => rfl
  | true =>
      cases begins : rest.isPrefixOf ideal.delimiter.text with
      | false => simp
      | true =>
          obtain ⟨more, delimiterEq⟩ := List.isPrefixOf_iff_prefix.mp begins
          have longer : more ≠ [] := by
            rintro rfl
            rw [List.append_nil] at delimiterEq
            have found : Text.after? ideal.delimiter.text ideal.ahead =
                some [] := by
              rw [after?_eq_some_iff, ahead, ← delimiterEq, List.append_nil]
            simp [StatementAssembler.behindDelimiter?, top, found] at other
          have smaller : rest.size < ideal.delimiter.text.size := by
            have positive := size_pos longer
            rw [← delimiterEq, size_append]
            omega
          simp [smaller]

private theorem unitTurn_delimiter {behind : Text} (counter : DepthCounter)
    (atEnd : Bool) (whole : buffer = front ++ rest)
    (arrives : Arrives draining front rest ideal)
    (found : ideal.behindDelimiter? = some behind) (octet : Char) :
    rest = ideal.delimiter.text ++ behind ∧
    unitTurn counter buffer buffer.octets atEnd draining octet front.size =
      (match unitTail? atEnd behind with
      | none => .ok (.stop (draining, front.size))
      | some tail => do
          let taken ←
              draining.takeStatement buffer
                (front.size + ideal.delimiter.text.size + tail)
          .ok (.goOn taken (ideal.delimiter.text.size + tail))) := by
  obtain ⟨-, -, -, ahead, same⟩ := arrives
  unfold StatementAssembler.behindDelimiter? at found
  split at found
  · next top =>
      have restEq := after?_eq_some_iff.mp found
      rw [ahead] at restEq
      have cut := octetsSince_append front rest
      have cutBehind :=
        octetsSince_append (front ++ ideal.delimiter.text) behind
      rw [List.append_assoc, ← restEq, size_append] at cutBehind
      rw [← whole] at cut cutBehind
      have begins : ideal.delimiter.text.isPrefixOf rest = true := by
        rw [List.isPrefixOf_iff_prefix, restEq]
        exact List.prefix_append _ _
      refine ⟨restEq, ?_⟩
      simp only [unitTurn, cut, Checked.ok_bind, ← same.delimiter_eq,
        ← same.lexer_eq, top, isPrefixOf_octets, begins, Bool.and_self, if_true,
        cutBehind, unitTail?_octets]
  · simp at found

theorem unitTurn_other (whole : buffer = front ++ rest)
    (arrives : Arrives draining front rest ideal)
    (other : ideal.behindDelimiter? = none) (octet : Char) :
    unitTurn counter buffer buffer.octets atEnd draining octet front.size =
      if ideal.beginsDelimiter && !atEnd then .ok (.stop (draining, front.size))
      else lexUnit counter buffer.octets atEnd draining octet front.size := by
  have waits := beginsDelimiter_eq whole arrives other
  obtain ⟨-, -, -, ahead, same⟩ := arrives
  have cut := octetsSince_append front rest
  rw [← whole] at cut
  have noDelimiter :
      ¬(ideal.lexer.atTopLevel && ideal.delimiter.text.isPrefixOf rest) =
        true := by
    intro begins
    rw [Bool.and_eq_true, List.isPrefixOf_iff_prefix] at begins
    obtain ⟨top, behind, restEq⟩ := begins
    have found : Text.after? ideal.delimiter.text ideal.ahead =
        some behind := by
      rw [after?_eq_some_iff, ahead, restEq]
    simp [StatementAssembler.behindDelimiter?, top, found] at other
  rw [unitTurn]
  simp only [cut, Checked.ok_bind, ← same.delimiter_eq, ← same.lexer_eq,
    isPrefixOf_octets, if_neg noDelimiter, waits]

def lexIdeal (ideal : StatementAssembler) (head : Char) (taken : Step)
    (after : Lexer) : StatementAssembler :=
  { ideal with
    lexed := (ideal.ahead.take taken.consumed).reverse ++ ideal.lexed
    ahead := ideal.ahead.drop taken.consumed
    lexer := after
    tokenSeen := ideal.tokenSeen ||
      (ideal.lexer.atTopLevel && !isAsciiBlank head && taken != .openPlain &&
        after.lex != .lineComment) }

variable {taken : Step} {after : Lexer}

theorem Arrives.lex (arrives : Arrives draining front (head :: tail) ideal)
    (first : IsFirst octet head) (taken : Step) (after : Lexer) :
    Arrives (draining.lex octet taken after)
      (front ++ (head :: tail).take taken.consumed)
      ((head :: tail).drop taken.consumed)
        (lexIdeal ideal head taken after) := by
  obtain ⟨done, frontEq, started, ahead, same⟩ := arrives
  refine ⟨done, ?_, started, ?_, rfl, same.delimiter_eq, ?_,
    same.atLineStart_eq, same.statements_eq⟩
  · simp only [lexIdeal, ahead, List.reverse_append, List.reverse_reverse,
      frontEq, List.append_assoc]
  · simp only [lexIdeal, ahead]
  · simp only [lexIdeal, Draining.lex, same.tokenSeen_eq, same.lexer_eq,
      first.isAsciiBlank_eq]

theorem lexOne?_eq (ahead : ideal.ahead = head :: tail)
    (stepEq : ideal.lexer.step atEnd (head :: tail) = (taken, after)) :
    ideal.lexOne? atEnd =
      if taken = .needMore then none
      else some (lexIdeal ideal head taken after) := by
  simp only [StatementAssembler.lexOne?, ahead, stepEq, lexIdeal,
    List.head?_cons, Option.any_some]

theorem move?_lex (probe : ideal.directiveProbe atEnd = .absent)
    (other : ideal.behindDelimiter? = none)
    (decided : ¬(ideal.beginsDelimiter && !atEnd) = true) :
    ideal.move? atEnd = (ideal.lexOne? atEnd).map fun moved =>
      (moved, none) := by
  have going : ¬(!atEnd && ideal.beginsDelimiter) = true := by
    rwa [Bool.and_comm]
  rw [StatementAssembler.move?, probe]
  simp only [other, if_neg going]

theorem drainTurn_absent (counter : DepthCounter)
    (whole : buffer = front ++ head :: tail)
    (arrives : Arrives draining front (head :: tail) ideal)
    (first : IsFirst octet head)
    (found : buffer.octets.octetAt front.size = .ok octet)
    (probe : ideal.directiveProbe atEnd = .absent) :
    drainTurn counter buffer buffer.octets atEnd draining front.size =
      unitTurn counter buffer buffer.octets atEnd draining octet
        front.size := by
  have absent := directiveAt_eq atEnd whole arrives first
  rw [probe, Probe.map] at absent
  simp only [drainTurn, found, absent, Checked.ok_bind]

/-- Between the bytes of a character neither a directive nor a terminator
begins. -/
theorem drainTurn_inside {place : Nat} (whole : buffer = front ++ head :: tail)
    (above : front.size < place) (below : place < front.size + head.utf8Size)
    (found : buffer.octets.octetAt place = .ok octet)
    (wide : isAscii octet = false) :
    drainTurn counter buffer buffer.octets atEnd draining place =
      lexUnit counter buffer.octets atEnd draining octet place := by
  have letter : (octet.toLower == 'd') = false := by
    rw [beq_eq_false_iff_ne]
    apply ne_of_wide _ (by decide)
    rwa [isAscii_toLower]
  have absent : draining.directiveAt buffer atEnd octet place =
      .ok .absent := by
    simp only [Draining.directiveAt, letter, Bool.and_false, Bool.false_eq_true,
      if_false]
  have within : place ≤ buffer.octets.length := by
    rw [whole, length_octets, size_append, size_cons]
    omega
  have cut : buffer.octets.octetsSince place =
      .ok (buffer.octets.drop place) := by
    rw [octetsSince, if_pos within]
  have left : Checked.minus buffer.octets.length place =
      .ok (buffer.octets.length - place) := by
    rw [Checked.minus, if_pos within]
  obtain ⟨noDelimiter, noBegin⟩ :=
    not_prefix_inside tail draining.assembler.delimiter.nonempty above below
  rw [← whole, ← List.isPrefixOf_iff_prefix, Bool.not_eq_true]
    at noDelimiter noBegin
  simp only [drainTurn, found, absent, Checked.ok_bind, unitTurn, cut,
    noDelimiter, Bool.and_false, Bool.false_eq_true, if_false, beginsDelimiter,
    left, noBegin, Bool.false_and]

theorem inDrain_lex (arrives : Arrives draining front (head :: tail) ideal)
    (first : IsFirst octet head)
    (moves : Lexer.Moves counter faith [] draining.assembler.lexer atEnd
        (head :: tail) (ideal.run atEnd draining.found = target) taken after)
    (decided : taken ≠ .needMore) (probe : ideal.directiveProbe atEnd = .absent)
    (other : ideal.behindDelimiter? = none)
    (going : ¬(ideal.beginsDelimiter && !atEnd) = true) :
    InDrain counter faith atEnd target (draining.lex octet taken after)
      (front ++ (head :: tail).take taken.consumed)
      ((head :: tail).drop taken.consumed) := by
  refine ⟨lexIdeal ideal head taken after, arrives.lex first taken after, ?_⟩
  apply (moves.tracks decided).imp
  intro holds same
  have stepEq := moves.step_eq holds
  rw [arrives.lexer_eq] at stepEq
  have moved :
      ideal.move? atEnd = some (lexIdeal ideal head taken after, none) := by
    rw [move?_lex probe other going, lexOne?_eq arrives.ahead_eq stepEq,
      if_neg decided, Option.map_some]
  rwa [StatementAssembler.run_of_some _ moved] at same

/-- The other bytes of a character leave the assembler as its first byte did. -/
theorem lexUnit_again {octets : Text} {place : Nat}
    (wideHead : isAscii head = false) (wide : isAscii octet = false)
    (stepped : draining.assembler.lexer.behindWide.stepChecked counter octets
        place atEnd = .ok (.skip 1, draining.assembler.lexer.behindWide)) :
    lexUnit counter octets atEnd
        (draining.lex head (.skip 1) draining.assembler.lexer.behindWide)
          octet place =
      .ok (.goOn
        (draining.lex head (.skip 1) draining.assembler.lexer.behindWide)
          1) := by
  have blank : isAsciiBlank octet = isAsciiBlank head := by
    rw [isAsciiBlank_wide wide, isAsciiBlank_wide wideHead]
  have again :
      (draining.lex head (.skip 1) draining.assembler.lexer.behindWide).lex
        octet
      (.skip 1) draining.assembler.lexer.behindWide =
        draining.lex head (.skip 1) draining.assembler.lexer.behindWide := by
    simp only [Draining.lex, blank, Lexer.atTopLevel_behindWide, Bool.or_assoc,
      Bool.or_self]
  have steppedFrom : (draining.lex head (.skip 1)
      draining.assembler.lexer.behindWide).assembler.lexer.stepChecked counter
        octets place
        atEnd = .ok (.skip 1, draining.assembler.lexer.behindWide) := stepped
  simp only [lexUnit, steppedFrom, Checked.ok_bind, reduceCtorEq, if_false,
    again]
  rfl

private theorem takes_lex (whole : buffer = front ++ head :: tail)
    (arrives : Arrives draining front (head :: tail) ideal)
    (tracks : Lexer.Tracks counter faith [] draining.assembler.lexer
        (head :: tail) (ideal.run atEnd draining.found = target))
    (probe : ideal.directiveProbe atEnd = .absent)
    (other : ideal.behindDelimiter? = none)
    (going : ¬(ideal.beginsDelimiter && !atEnd) = true) :
    Takes (drainTurn counter buffer buffer.octets atEnd)
      (InDrain counter faith atEnd target)
      (IsDrained faith buffer target) draining front (head :: tail) := by
  have turn {octet : Char} (first : IsFirst octet head)
      (found : buffer.octets.octetAt front.size = .ok octet) :
      drainTurn counter buffer buffer.octets atEnd draining front.size =
        lexUnit counter buffer.octets atEnd draining octet front.size := by
    rw [drainTurn_absent counter whole arrives first found probe,
      unitTurn_other whole arrives other, if_neg going]
  cases ascii : isAscii head with
  | false =>
      have moves := tracks.wideMoves ascii atEnd
      have further :=
        inDrain_lex arrives (.inl rfl) moves (by simp) probe other going
      subst whole
      apply tracks.takes_wide ascii atEnd _ _ further
      · intro octet wide found stepped
        have first : IsFirst octet head := .inr ⟨wide, ascii⟩
        rw [turn first found]
        simp only [lexUnit, stepped, Checked.ok_bind, reduceCtorEq, if_false,
          Draining.lex, first.isAsciiBlank_eq]
        rfl
      · intro octet place above below wide found stepped
        rw [drainTurn_inside rfl above below found wide,
          lexUnit_again ascii wide stepped]
  | true =>
      obtain ⟨taken, after, stepped, sizeEq, moves⟩ :=
        tracks.step ascii front atEnd
      have found : (octets (front ++ head :: tail)).octetAt front.size =
          .ok head :=
        Lexer.octetAt_ascii ascii
      rw [← whole] at stepped found
      by_cases waits : taken = .needMore
      · subst waits
        apply Takes.drained whole arrives tracks
        · rw [turn (.inl rfl) found]
          simp only [lexUnit, stepped, Checked.ok_bind, if_true]
        · intro holds
          have stepEq := moves.step_eq holds
          rw [arrives.lexer_eq] at stepEq
          rw [move?_lex probe other going, lexOne?_eq arrives.ahead_eq stepEq,
            if_pos rfl, Option.map_none]
      · apply Takes.ofCount (moves.consumed_pos waits) sizeEq _
          (inDrain_lex arrives (.inl rfl) moves waits probe other going)
        rw [turn (.inl rfl) found]
        simp only [lexUnit, stepped, Checked.ok_bind, if_neg waits]

theorem octetAt_first (whole : buffer = front ++ head :: tail) :
    ∃ octet, buffer.octets.octetAt front.size = .ok octet ∧
    IsFirst octet head := by
  subst whole
  cases ascii : isAscii head with
  | true => exact ⟨head, Lexer.octetAt_ascii ascii, .inl rfl⟩
  | false =>
      obtain ⟨octet, others, here, wide⟩ :=
        Lexer.drop_octets_wide ascii tail (Nat.le_refl front.size)
          (Nat.lt_add_of_pos_right head.utf8Size_pos)
      exact ⟨octet, Lexer.octetAt_of_drop here, .inr ⟨wide, ascii⟩⟩

private theorem takes_directive {length : Nat}
    (whole : buffer = front ++ head :: tail)
    (arrives : Arrives draining front (head :: tail) ideal)
    (tracks : Lexer.Tracks counter faith [] draining.assembler.lexer
        (head :: tail) (ideal.run atEnd draining.found = target))
    (probe : ideal.directiveProbe atEnd = .found length) :
    Takes (drainTurn counter buffer buffer.octets atEnd)
      (InDrain counter faith atEnd target)
      (IsDrained faith buffer target) draining front (head :: tail) := by
  have line : directiveLength atEnd (head :: tail) = .found length := by
    unfold StatementAssembler.directiveProbe at probe
    rw [arrives.ahead_eq] at probe
    split at probe
    · exact probe
    · simp at probe
  obtain ⟨octet, found, first⟩ := octetAt_first whole
  have directive := directiveAt_eq atEnd whole arrives first
  obtain ⟨piece, behind, split, lengthEq⟩ : ∃ piece behind,
      head :: tail = piece ++ behind ∧ piece.length = length :=
    ⟨_, _, (List.take_append_drop length _).symm,
      List.length_take_of_le (directiveLength_le line)⟩
  subst lengthEq
  have taken : (head :: tail).take piece.length = piece := by
    rw [split, List.take_left]
  rw [probe, Probe.map, taken] at directive
  rw [split] at whole arrives tracks line ⊢
  obtain ⟨emitted, emittedEq, further, foundEq⟩ :=
    arrives.takeDirective whole line
  have nonempty : piece ≠ [] :=
    List.length_pos_iff.mp (StatementAssembler.directiveLength_pos line)
  apply Takes.cut nonempty tracks _ further foundEq
  · rw [further.lexer_eq, arrives.lexer_eq]
    rfl
  · simp only [StatementAssembler.move?, probe]
  · simp only [drainTurn, found, Checked.ok_bind, directive, emittedEq]

/-- A statement leaves with its terminator as soon as it is known what belongs
to it. -/
theorem takes_delimiter {behind : Text} (whole : buffer = front ++ head :: tail)
    (arrives : Arrives draining front (head :: tail) ideal)
    (tracks : Lexer.Tracks counter faith [] draining.assembler.lexer
        (head :: tail) (ideal.run atEnd draining.found = target))
    (probe : ideal.directiveProbe atEnd = .absent)
    (delimiter : ideal.behindDelimiter? = some behind) :
    Takes (drainTurn counter buffer buffer.octets atEnd)
      (InDrain counter faith atEnd target)
      (IsDrained faith buffer target) draining front (head :: tail) := by
  obtain ⟨octet, found, first⟩ := octetAt_first whole
  have turn := drainTurn_absent counter whole arrives first found probe
  obtain ⟨restEq, delimited⟩ :=
    unitTurn_delimiter counter atEnd whole arrives delimiter octet
  cases known : unitTail? atEnd behind with
  | none =>
      rw [known] at delimited
      apply Takes.drained whole arrives tracks (turn.trans delimited)
      intro _
      simp only [StatementAssembler.move?, probe, delimiter, known,
        Option.map_none]
  | some count =>
      have split : head :: tail =
          ideal.delimiter.text ++ behind.take count ++ behind.drop count := by
        rw [restEq, List.append_assoc, List.take_append_drop]
      have sizeEq : (ideal.delimiter.text ++ behind.take count).size =
          ideal.delimiter.text.size + count := by
        rw [size_append, size_unitTail? known]
      rw [restEq] at whole arrives
      obtain ⟨emitted, emittedEq, further, foundEq⟩ :=
        arrives.takeStatement whole (unitTail?_le known)
      rw [split] at tracks ⊢
      have nonempty : ideal.delimiter.text ++ behind.take count ≠ [] := by
        simp [ideal.delimiter.nonempty]
      apply Takes.cut nonempty tracks _ further foundEq
      · rw [further.lexer_eq, arrives.lexer_eq]
        rfl
      · simp only [StatementAssembler.move?, probe, delimiter, known,
          Option.map_some]
      · rw [size_append front, sizeEq, ← Nat.add_assoc] at emittedEq
        rw [turn, delimited, known, sizeEq]
        simp only [emittedEq, Checked.ok_bind]

private theorem takes_drain (whole : buffer = front ++ head :: tail)
    (inDrain : InDrain counter faith atEnd target draining front
        (head :: tail)) :
    Takes (drainTurn counter buffer buffer.octets atEnd)
      (InDrain counter faith atEnd target)
      (IsDrained faith buffer target) draining front (head :: tail) := by
  obtain ⟨ideal, arrives, tracks⟩ := inDrain
  obtain ⟨octet, found, first⟩ := octetAt_first whole
  cases probe : ideal.directiveProbe atEnd with
  | needMore =>
      have directive := directiveAt_eq atEnd whole arrives first
      rw [probe] at directive
      apply Takes.drained whole arrives tracks
      · simp only [drainTurn, found, Checked.ok_bind, directive, Probe.map]
      · intro _
        simp only [StatementAssembler.move?, probe]
  | found length => exact takes_directive whole arrives tracks probe
  | absent =>
      cases delimiter : ideal.behindDelimiter? with
      | some behind =>
          exact takes_delimiter whole arrives tracks probe delimiter
      | none =>
          by_cases waits : (ideal.beginsDelimiter && !atEnd) = true
          · apply Takes.drained whole arrives tracks
            · rw [drainTurn_absent counter whole arrives first found probe,
                unitTurn_other whole arrives delimiter, if_pos waits]
            · intro _
              rw [Bool.and_comm] at waits
              simp only [StatementAssembler.move?, probe, delimiter,
                if_pos waits]
          · exact takes_lex whole arrives tracks probe delimiter waits

/-- Between two pushes the assembler is where the one over characters is. -/
structure Holds (assembler : ByteAssembler) (ideal : StatementAssembler) :
    Prop where
  pending_eq : assembler.pending = ideal.lexed.reverse ++ ideal.ahead
  scanPlace_eq : assembler.scanPlace = size ideal.lexed.reverse
  same : SameState assembler ideal
  quoting : assembler.lexer.Quoting

theorem holds_start : Holds {} {} where
  pending_eq := rfl
  scanPlace_eq := rfl
  same := ⟨rfl, rfl, rfl, rfl, rfl⟩
  quoting := Lexer.quoting_start

variable {assembler : ByteAssembler}

/-- The assembler comes to the end of what can be decided, and what leaves are
units. -/
theorem drain_spec (holds : Holds assembler ideal) (atEnd : Bool)
    (keeps : counter.Keeps faith (ideal.lexer.depth + openings ideal.ahead)) :
    ∃ drained units idealDrained,
      assembler.drain counter atEnd = .ok (drained, units) ∧
      Holds drained idealDrained ∧
      (faith → ideal.run atEnd [] = (idealDrained, units)) := by
  obtain ⟨buffer, bufferEq⟩ : ∃ buffer, assembler.pending = buffer := ⟨_, rfl⟩
  have whole : buffer = ideal.lexed.reverse ++ ideal.ahead :=
    bufferEq ▸ holds.pending_eq
  rw [holds.same.lexer_eq] at keeps
  have start : InDrain counter faith atEnd (ideal.run atEnd []) { assembler :=
      assembler }
      ideal.lexed.reverse ideal.ahead :=
    ⟨ideal, ⟨[], rfl, rfl, rfl, holds.same⟩,
      .of_keeps holds.quoting keeps fun _ => rfl⟩
  have ends (draining : Draining)
      (done : InDrain counter faith atEnd (ideal.run atEnd []) draining
      buffer []) : IsDrained faith buffer (ideal.run atEnd []) (draining,
        buffer.size) := by
    obtain ⟨last, arrives, tracks⟩ := done
    refine ⟨buffer, [], last, (List.append_nil buffer).symm, rfl, arrives,
      tracks.quoting, fun faithful => ?_⟩
    have same := (tracks.faithful faithful).2
    rwa [StatementAssembler.run_of_none _
      (StatementAssembler.move?_of_nothing atEnd arrives.ahead_eq)] at same
  have walked : ∃ answer,
      walk buffer.size (drainTurn counter buffer buffer.octets atEnd)
        (fun draining place => (draining, place)) { assembler := assembler }
        (size ideal.lexed.reverse) = .ok answer ∧
      IsDrained faith buffer (ideal.run atEnd []) answer :=
    walk_spec ends (fun _ _ _ _ => takes_drain) _ _ _ whole start
  obtain ⟨⟨draining, place⟩, walkEq, front, rest, last, bufferParts, rfl,
    arrives, quoting, same⟩ := walked
  obtain ⟨done, frontEq, started, ahead, sameState⟩ := arrives
  dsimp only at frontEq started sameState quoting same walkEq
  have cut : buffer.since draining.start =
      .ok (last.lexed.reverse ++ last.ahead) := by
    have parts := since_append done (last.lexed.reverse ++ last.ahead)
    rw [ahead] at parts ⊢
    rwa [← List.append_assoc, ← frontEq, ← bufferParts, ← started] at parts
  have scanPlace : Checked.minus front.size draining.start =
      .ok (size last.lexed.reverse) := by
    rw [frontEq, size_append, started, Checked.minus_add]
  refine ⟨{ draining.assembler with
    pending := last.lexed.reverse ++ last.ahead, scanPlace :=
      size last.lexed.reverse },
    draining.found.reverse, last, ?_, ⟨rfl, rfl, ?_, quoting⟩,
    fun faithful => (same faithful).symm⟩
  · simp only [ByteAssembler.drain, bufferEq, holds.scanPlace_eq, walkEq,
      Checked.ok_bind, cut, scanPlace]
  · exact ⟨sameState.lexer_eq, sameState.delimiter_eq, sameState.tokenSeen_eq,
      sameState.atLineStart_eq, sameState.statements_eq⟩

theorem push_spec (holds : Holds assembler ideal) {text : Text}
    (keeps : counter.Keeps faith
        (ideal.lexer.depth + openings (ideal.ahead ++ text))) :
    ∃ pushed units idealPushed,
      assembler.push counter text = .ok (pushed, units) ∧
      Holds pushed idealPushed ∧
      (faith → ideal.push text = (idealPushed, units)) := by
  have longer : Holds { assembler with pending := assembler.pending ++ text }
      { ideal with ahead := ideal.ahead ++ text } := by
    refine ⟨?_, holds.scanPlace_eq, ?_, holds.quoting⟩
    · rw [holds.pending_eq, List.append_assoc]
    · have same := holds.same
      exact ⟨same.lexer_eq, same.delimiter_eq, same.tokenSeen_eq,
        same.atLineStart_eq, same.statements_eq⟩
  exact drain_spec longer false keeps

private theorem preview_eq (text : Text) :
    preview text = .ok (StatementAssembler.preview text) := by
  have cut := upTo_append (text.trim.take StatementAssembler.previewLength)
    (text.trim.drop StatementAssembler.previewLength)
  rw [List.take_append_drop] at cut
  simp only [preview, StatementAssembler.preview, cut, Checked.ok_bind]
  split <;> rfl

/-- What is left of the stream leaves at its end. -/
theorem finishUnits_spec (holds : Holds assembler ideal)
    (keeps : counter.Keeps faith (ideal.lexer.depth + openings ideal.ahead)) :
    ∃ finished units shown idealFinished,
      assembler.finish counter = .ok (finished, units, shown) ∧
      Holds finished idealFinished ∧
      (faith → ideal.finish = (idealFinished, units, shown)) := by
  obtain ⟨drained, units, last, drainEq, ended, same⟩ :=
    drain_spec holds true keeps
  have pendingEq := ended.pending_eq
  have sameState := ended.same
  have shownEq : drained.unfinished? = .ok (if last.tokenSeen then
      some (StatementAssembler.preview (last.lexed.reverse ++ last.ahead))
        else none) := by
    rw [ByteAssembler.unfinished?, ← sameState.tokenSeen_eq, pendingEq,
      preview_eq]
    split <;> rfl
  refine ⟨{ delimiter := drained.delimiter, statements := drained.statements },
    units ++ (if last.lexed.reverse ++ last.ahead = [] then []
      else [⟨.trailing, last.atLineStart, last.lexed.reverse ++ last.ahead⟩]),
    if last.tokenSeen then
      some (StatementAssembler.preview (last.lexed.reverse ++ last.ahead))
        else none,
    { delimiter := last.delimiter, statements := last.statements }, ?_, ?_,
      fun faithful => ?_⟩
  · simp only [ByteAssembler.finish, drainEq, Checked.ok_bind, shownEq,
      pendingEq, sameState.atLineStart_eq]
  · exact ⟨rfl, rfl,
      ⟨rfl, sameState.delimiter_eq, rfl, rfl, sameState.statements_eq⟩,
      Lexer.quoting_start⟩
  · simp only [StatementAssembler.finish, same faithful]

end Offset

end SqlDump
