import SqlDump.Guard
import SqlDump.Pipeline.State
import SqlDump.Proofs.Offset.Search

/-!
# Guards by bytes

A guard is found by the byte offsets of its content and of its end.  The offsets
cut the text where a guard lies in it, so every search behind a guard begins
between two characters.
-/

namespace SqlDump

open Text

/-- What a text has at its start: for a guard, the offsets of its content and of
its end. -/
inductive GuardPlaces where
  | notGuard
  | incomplete
  | complete (start stop version finish : Nat)
deriving DecidableEq, Repr

namespace Guard

def opening (guard : Guard) : Text :=
  guardMarker ++ guard.digits

namespace Scan

def places : Scan → GuardPlaces
  | .notGuard => .notGuard
  | .incomplete => .incomplete
  | .complete guard _ =>
      .complete guard.opening.size (size (guard.opening ++ guard.inner))
        guard.version
        guard.raw.size

end Scan

end Guard

namespace Offset

def contentTurn (counter : DepthCounter) (octets : Text) (start version : Nat)
    (lexer : Lexer) (place : Nat) : Checked (Turn Lexer GuardPlaces) := do
  let (taken, after) ← lexer.stepChecked counter octets place false
  if taken = .needMore then .ok (.stop .incomplete)
  else if taken = .close ∧ after.depth = 0 then
    .ok (.stop (.complete start place version (place + 2)))
  else .ok (.goOn after taken.consumed)

/-- The guard of which the lexer has taken the first step. -/
def guardBehind (counter : DepthCounter) (text : Text) :
    Step × Lexer → Checked GuardPlaces
  | (.openGuard start, inside) => do
      let digits ← text.between guardMarker.length start
      walk text.size
        (contentTurn counter text.octets start (versionOfDigits digits))
        (fun _ _ => .incomplete) inside start
  | (.needMore, _) => .ok .incomplete
  | _ => .ok .notGuard

def scanGuard (counter : DepthCounter) (text : Text) : Checked GuardPlaces :=
  match Text.after? guardMarker text with
  | none => .ok .notGuard
  | some _ => do
      let stepped ← ({} : Lexer).stepChecked counter text.octets 0 false
      guardBehind counter text stepped

variable {counter : DepthCounter} {text front tail : Text}
  {lexer inside : Lexer} {head : Char} {faith : Prop}

/-- The lexer is in the content of a guard, behind `front`. -/
def InContent (counter : DepthCounter) (faith : Prop) (opening content : Text)
    (inside : Lexer) (lexer : Lexer) (front rest : Text) : Prop :=
  ∃ seen, front = opening ++ seen ∧ content = seen ++ rest ∧
    Lexer.Tracks counter faith [] lexer rest
      (inside.guardContent? content =
        (lexer.guardContent? rest).map fun (inner, behind) =>
          (seen ++ inner, behind))

/-- The offsets of a guard with this opening. -/
def contentPlaces (opening : Text) (version : Nat) :
    Option (Text × Text) → GuardPlaces
  | none => .incomplete
  | some (inner, _) =>
      .complete opening.size (size (opening ++ inner)) version
        (size (opening ++ inner ++ closingMarker))

def IsContent (faith : Prop) (opening content : Text) (version : Nat)
    (inside : Lexer) (answer : GuardPlaces) : Prop :=
  ∃ found, answer = contentPlaces opening version found ∧
    (∀ inner behind, found = some (inner, behind) →
      content = inner ++ closingMarker ++ behind) ∧
    (faith → inside.guardContent? content = found)

theorem inContent_further {opening content : Text} {taken : Step}
    {after : Lexer} {seen : Text} (frontEq : front = opening ++ seen)
    (contentEq : content = seen ++ head :: tail)
    (moves : Lexer.Moves counter faith [] lexer false (head :: tail)
        (inside.guardContent? content = (lexer.guardContent? (head :: tail)).map
        fun (inner, behind) => (seen ++ inner, behind)) taken after)
    (decided : taken ≠ .needMore)
    (goesOn : ¬(taken = .close ∧ after.depth = 0)) :
    InContent counter faith opening content inside after
      (front ++ (head :: tail).take taken.consumed)
      ((head :: tail).drop taken.consumed) := by
  refine ⟨seen ++ (head :: tail).take taken.consumed, ?_, ?_, ?_⟩
  · rw [frontEq, List.append_assoc]
  · rw [contentEq, List.append_assoc, List.take_append_drop]
  · apply (moves.tracks decided).imp
    intro holds same
    have stepEq := moves.step_eq holds
    rw [Lexer.guardContent?, stepEq] at same
    simp only [if_neg decided, if_neg goesOn, Option.map_map] at same
    rw [same]
    congr 1
    funext found
    simp only [Function.comp_apply, List.append_assoc]

private theorem takes_content {opening content : Text} {version : Nat}
    (whole : text = front ++ head :: tail)
    (inContent : InContent counter faith opening content inside lexer front
        (head :: tail)) :
    Takes (contentTurn counter text.octets opening.size version)
      (InContent counter faith opening content inside)
      (IsContent faith opening content version inside) lexer front
        (head :: tail) := by
  obtain ⟨seen, frontEq, contentEq, tracks⟩ := inContent
  subst whole
  cases ascii : isAscii head with
  | false =>
      have moves := tracks.wideMoves ascii false
      have skips : ¬((Step.skip 1) = .close ∧ lexer.behindWide.depth = 0) := by
        simp
      apply tracks.takes_wide ascii false _ _
        (inContent_further frontEq contentEq moves (by simp) skips)
      · intro octet wideOctet found stepped
        simp only [contentTurn, stepped, Checked.ok_bind, reduceCtorEq,
          false_and, if_false]
        rfl
      · intro octet place _ _ wideOctet found stepped
        simp only [contentTurn, stepped, Checked.ok_bind, reduceCtorEq,
          false_and, if_false]
        rfl
  | true =>
      obtain ⟨taken, after, stepped, sizeEq, moves⟩ :=
        tracks.step ascii front false
      by_cases waits : taken = .needMore
      · apply Takes.stop .incomplete
        · simp only [contentTurn, stepped, Checked.ok_bind, if_pos waits]
        · refine ⟨none, rfl, by simp, fun holds => ?_⟩
          rw [(tracks.faithful holds).2, Lexer.guardContent?,
            moves.step_eq holds]
          simp only [if_pos waits, Option.map_none]
      · by_cases closes : taken = .close ∧ after.depth = 0
        · have outcome := moves.outcome waits
          rw [closes.1] at outcome
          obtain ⟨-, -, behind, restEq⟩ := outcome.close_spec
          have markerSize : size closingMarker = 2 := by decide
          apply Takes.stop
              (.complete opening.size front.size version (front.size + 2))
          · simp only [contentTurn, stepped, Checked.ok_bind, if_neg waits,
              if_pos closes]
          · refine ⟨some (seen, behind), ?_, ?_, fun holds => ?_⟩
            · rw [contentPlaces, size_append (opening ++ seen), ← frontEq,
              markerSize]
            · rintro _ _ ⟨rfl, rfl⟩
              rw [contentEq, restEq, List.append_assoc]
            · rw [(tracks.faithful holds).2, Lexer.guardContent?,
                moves.step_eq holds]
              simp only [if_neg waits, if_pos closes, Option.map_some,
                List.append_nil]
              rw [restEq]
              rfl
        · apply Takes.ofCount (moves.consumed_pos waits) sizeEq _
            (inContent_further frontEq contentEq moves waits closes)
          simp only [contentTurn, stepped, Checked.ok_bind, if_neg waits,
            if_neg closes]

private theorem walk_content {content : Text} (opening : Text) (version : Nat)
    (tracks : Lexer.Tracks counter faith [] inside content True) :
    ∃ found, walk (opening ++ content).size
        (contentTurn counter (opening ++ content).octets opening.size version)
        (fun _ _ => .incomplete) inside opening.size =
          .ok (contentPlaces opening version found) ∧
      (∀ inner behind, found = some (inner, behind) →
        content = inner ++ closingMarker ++ behind) ∧
      (faith → inside.guardContent? content = found) := by
  have start : InContent counter faith opening content inside inside opening
      content := by
    refine ⟨[], (List.append_nil _).symm, rfl, tracks.imp fun _ _ => ?_⟩
    simp only [List.nil_append, Option.map_id']
  have ends (lexer : Lexer)
      (done : InContent counter faith opening content inside lexer
      (opening ++ content) []) :
        IsContent faith opening content version inside .incomplete := by
    obtain ⟨seen, -, -, tracks⟩ := done
    refine ⟨none, rfl, by simp, fun holds => ?_⟩
    rw [(tracks.faithful holds).2, Lexer.guardContent?]
    rfl
  have walked : ∃ answer, walk (opening ++ content).size
        (contentTurn counter (opening ++ content).octets opening.size version)
        (fun _ _ => .incomplete) inside opening.size = .ok answer ∧
      IsContent faith opening content version inside answer :=
    walk_spec ends (fun _ _ _ _ => takes_content) inside opening content rfl
      start
  obtain ⟨answer, answerEq, found, rfl, splits, ideal⟩ := walked
  exact ⟨found, answerEq, splits, ideal⟩

/-- A guard that has opened is found by the offsets of its content and of its
end. -/
theorem guardBehind_openGuard {behind : Text} {start : Nat}
    (sizeEq : size ((guardMarker ++ behind).take start) = start)
    (moves : Lexer.Moves counter faith [] {} false (guardMarker ++ behind)
        True (.openGuard start) inside) :
    ∃ digits content found, behind = digits ++ content ∧
      start = (guardMarker ++ digits).length ∧
      guardBehind counter (guardMarker ++ behind) (.openGuard start, inside) =
        .ok (contentPlaces (guardMarker ++ digits) (versionOfDigits digits)
          found) ∧
      (∀ inner rest,
        found = some (inner, rest) → content = inner ++ closingMarker ++ rest) ∧
      (faith → inside.guardContent? content = found) := by
  obtain ⟨-, -, digits, content, split, -, -, startEq⟩ :=
    (moves.outcome (by simp)).openGuard_spec
  have same : guardMarker ++ behind = guardMarker ++ (digits ++ content) :=
    split
  obtain rfl : behind = digits ++ content := List.append_cancel_left same
  have lengthEq : start = (guardMarker ++ digits).length := by
    rw [startEq, List.length_append]
  have opened : Lexer.Tracks counter faith [] inside
      ((guardMarker ++ (digits ++ content)).drop start) True :=
        moves.tracks (by simp)
  rw [lengthEq, ← List.append_assoc, List.drop_left] at opened
  rw [← List.append_assoc] at sizeEq
  have openingSize : size (guardMarker ++ digits) = start := by
    conv at sizeEq => lhs; rw [lengthEq, List.take_left]
    exact sizeEq
  have cut := between_append guardMarker digits content
  rw [openingSize, show guardMarker.size = guardMarker.length by decide] at cut
  obtain ⟨found, answerEq, splits, ideal⟩ :=
    walk_content (guardMarker ++ digits) (versionOfDigits digits) opened
  rw [List.append_assoc, openingSize] at answerEq
  refine ⟨digits, content, found, rfl, lengthEq, ?_, splits, ideal⟩
  simp only [guardBehind, cut, Checked.ok_bind]
  exact answerEq

theorem scanGuard_spec (serves : counter.Serves {} text) :
    ∃ scan : Guard.Scan, scanGuard counter text = .ok scan.places ∧
      (∀ guard rest, scan = .complete guard rest → text = guard.raw ++ rest) ∧
      (counter.Counts {} text → Guard.scan text = scan) := by
  cases begins : Text.after? guardMarker text with
  | none =>
      refine ⟨.notGuard, ?_, by simp, fun _ => ?_⟩
      · simp only [scanGuard, begins]
        rfl
      · simp only [Guard.scan, begins]
  | some behind =>
      obtain rfl := Text.after?_eq_some_iff.mp begins
      have tracks :
          Lexer.Tracks counter (counter.Counts {} (guardMarker ++ behind)) [] {}
          ('/' :: '*' :: '!' :: behind) True :=
            Lexer.Tracks.start serves trivial
      obtain ⟨taken, inside, stepped, sizeEq, moves⟩ :=
        tracks.step (by decide) [] false
      have machine : scanGuard counter (guardMarker ++ behind) =
          guardBehind counter (guardMarker ++ behind) (taken, inside) := by
        have stepEq : ({} : Lexer).stepChecked counter
            (guardMarker ++ behind).octets 0 false =
          .ok (taken, inside) := stepped
        simp only [scanGuard, begins, stepEq, Checked.ok_bind]
      have stepEq (counts : counter.Counts {} (guardMarker ++ behind)) :
          ({} : Lexer).step false (guardMarker ++ behind) = (taken, inside) :=
        moves.step_eq counts
      cases taken with
      | openGuard start =>
          obtain ⟨digits, content, found, rfl, rfl, result, splits, ideal⟩ :=
            guardBehind_openGuard sizeEq moves
          have taken : (guardMarker ++ (digits ++ content)).take
              (guardMarker ++ digits).length =
              guardMarker ++ digits := by
            rw [← List.append_assoc, List.take_left]
          have dropped : (guardMarker ++ (digits ++ content)).drop
              (guardMarker ++ digits).length = content := by
            rw [← List.append_assoc, List.drop_left]
          cases found with
          | none =>
              refine ⟨.incomplete, machine.trans result, by simp,
                fun counts => ?_⟩
              simp only [Guard.scan, begins, stepEq counts, dropped,
                ideal counts]
          | some parts =>
              obtain ⟨inner, rest⟩ := parts
              refine ⟨.complete ⟨digits, inner⟩ rest, machine.trans result, ?_,
                fun counts => ?_⟩
              · rintro guard behind ⟨rfl, rfl⟩
                rw [splits inner rest rfl]
                simp only [Guard.raw, List.append_assoc]
              · simp only [Guard.scan, begins, stepEq counts, dropped,
                  ideal counts, taken, List.drop_left]
      | needMore =>
          refine ⟨.incomplete, machine, by simp, fun counts => ?_⟩
          simp only [Guard.scan, begins, stepEq counts]
      | skip count =>
          refine ⟨.notGuard, machine, by simp, fun counts => ?_⟩
          simp only [Guard.scan, begins, stepEq counts]
      | openPlain =>
          refine ⟨.notGuard, machine, by simp, fun counts => ?_⟩
          simp only [Guard.scan, begins, stepEq counts]
      | close =>
          refine ⟨.notGuard, machine, by simp, fun counts => ?_⟩
          simp only [Guard.scan, begins, stepEq counts]

def skipGuard (counter : DepthCounter) (text : Text) (offset : Nat) :
    Checked (Option Nat) := do
  let body ← text.since offset
  match ← scanGuard counter body with
  | .complete _ _ _ finish => do
      let behind ← text.since (offset + finish)
      let trivia ← statementOffset counter behind
      .ok (some (offset + finish + trivia))
  | _ => .ok none

def skipTurn (counter : DepthCounter) (text : Text) (_ : Unit) (offset : Nat) :
    Checked (Turn Unit Nat) := do
  match ← skipGuard counter text offset with
  | some next => .ok (.goOn () (next - offset))
  | none => .ok (.stop offset)

/-- Byte offset of the statement behind all complete guards from the offset
on. -/
def skipGuards (counter : DepthCounter) (text : Text) (offset : Nat) :
    Checked Nat :=
  walk (text.size + 1) (skipTurn counter text) (fun _ place => place) () offset

/-- Byte offset of the statement of a unit. -/
def statementPlace (counter : DepthCounter) (text : Text) : Checked Nat := do
  skipGuards counter text (← statementOffset counter text)

private theorem raw_ne_nil (guard : Guard) : guard.raw ≠ [] := by
  simp [Guard.raw, guardMarker]

theorem skipGuard_spec (lead : Text) {body : Text}
    (serves : counter.Serves {} body) :
    ∃ found : Option (Text × Text),
      skipGuard counter (lead ++ body) lead.size =
        .ok (found.map fun parts => size (lead ++ parts.1)) ∧
      (∀ skipped rest, found = some (skipped, rest) → body = skipped ++ rest ∧
        skipped ≠ []) ∧
      (counter.Counts {} body → Guard.behind? body = found.map Prod.snd) := by
  obtain ⟨scan, scanEq, splits, ideal⟩ := scanGuard_spec serves
  have cut := since_append lead body
  cases scan with
  | complete guard rest =>
      obtain rfl := splits guard rest rfl
      obtain ⟨trivia, token, rfl, triviaEq, triviaIdeal⟩ :=
        statementOffset_spec serves.suffix
      have cutBehind := since_append (lead ++ guard.raw) (trivia ++ token)
      rw [List.append_assoc, size_append] at cutBehind
      refine ⟨some (guard.raw ++ trivia, token), ?_, ?_, ?_⟩
      · simp only [skipGuard, cut, Checked.ok_bind, scanEq, Guard.Scan.places,
          cutBehind, triviaEq, Option.map_some, size_append, Nat.add_assoc]
      · rintro skipped behind ⟨rfl, rfl⟩
        exact ⟨(List.append_assoc _ _ _).symm, fun empty =>
          raw_ne_nil guard (List.append_eq_nil_iff.mp empty).1⟩
      · intro counts
        simp only [Guard.behind?, ideal counts, ← triviaIdeal counts.suffix,
          List.drop_left, Option.map_some]
  | notGuard =>
      refine ⟨none, ?_, by simp, fun counts => ?_⟩
      · simp only [skipGuard, cut, Checked.ok_bind, scanEq, Guard.Scan.places,
          Option.map_none]
      · simp only [Guard.behind?, ideal counts, Option.map_none]
  | incomplete =>
      refine ⟨none, ?_, by simp, fun counts => ?_⟩
      · simp only [skipGuard, cut, Checked.ok_bind, scanEq, Guard.Scan.places,
          Option.map_none]
      · simp only [Guard.behind?, ideal counts, Option.map_none]

theorem skipGuards_spec (lead body : Text) (serves : counter.Serves {} body) :
    ∃ skipped rest, body = skipped ++ rest ∧
      skipGuards counter (lead ++ body) lead.size =
        .ok (size (lead ++ skipped)) ∧
      (counter.Counts {} body → Guard.skipAll body = rest) := by
  induction bound : body.length using Nat.strongRecOn
    generalizing lead body with
  | ind count ih =>
    have within : lead.size < (lead ++ body).size + 1 := by
      rw [size_append]
      omega
    obtain ⟨found, foundEq, splits, ideal⟩ := skipGuard_spec lead serves
    cases found with
    | none =>
        refine ⟨[], body, rfl, ?_, fun counts => ?_⟩
        · rw [skipGuards, List.append_nil]
          apply walk_stop within
          simp only [skipTurn, foundEq, Checked.ok_bind, Option.map_none]
        · rw [Guard.skipAll]
          split
          · next rest some => simp [ideal counts] at some
          · rfl
    | some parts =>
        obtain ⟨skipped, rest⟩ := parts
        obtain ⟨rfl, nonempty⟩ := splits skipped rest rfl
        have shorter : rest.length < count := by
          have positive := List.length_pos_iff.mpr nonempty
          rw [List.length_append] at bound
          omega
        obtain ⟨more, last, rfl, placeEq, idealRest⟩ :=
          ih rest.length shorter (lead ++ skipped) rest serves.suffix rfl
        refine ⟨skipped ++ more, last, (List.append_assoc _ _ _).symm, ?_,
          fun counts => ?_⟩
        · have turn : skipTurn counter (lead ++ (skipped ++ (more ++ last)))
              () lead.size =
              .ok (.goOn () skipped.size) := by
            simp only [skipTurn, foundEq, Checked.ok_bind, Option.map_some,
              size_append, Nat.add_sub_cancel_left]
          rw [List.append_assoc] at placeEq
          rw [skipGuards, walk_goOn within turn (size_pos nonempty),
            ← size_append, ← skipGuards, placeEq, List.append_assoc]
        · have behind := ideal counts
          rw [Guard.skipAll]
          split
          · next later some =>
              rw [behind] at some
              obtain rfl := Option.some.inj some
              exact idealRest counts.suffix
          · next none => simp [behind] at none

/-- The statement of a unit begins between two characters. -/
theorem statementPlace_spec (serves : counter.Serves {} text) :
    ∃ lead body, text = lead ++ body ∧
      statementPlace counter text = .ok lead.size ∧
      (counter.Counts {} text → splitStatement text = (lead, body)) := by
  obtain ⟨trivia, token, rfl, triviaEq, triviaIdeal⟩ :=
    statementOffset_spec serves
  obtain ⟨guards, body, rfl, placeEq, ideal⟩ :=
    skipGuards_spec trivia token serves.suffix
  refine ⟨trivia ++ guards, body, (List.append_assoc _ _ _).symm, ?_,
    fun counts => ?_⟩
  · simp only [statementPlace, triviaEq, Checked.ok_bind, placeEq]
  · rw [splitStatement, ← triviaIdeal counts, List.drop_left,
      ideal counts.suffix]
    have whole : trivia ++ (guards ++ body) = trivia ++ guards ++ body :=
      (List.append_assoc _ _ _).symm
    have lengths : (trivia ++ (guards ++ body)).length - body.length =
        (trivia ++ guards).length := by
      rw [whole, List.length_append, Nat.add_sub_cancel]
    rw [lengths, whole, List.take_left]

def firstKeyword (counter : DepthCounter) (body : Text) :
    Checked (Text × Bool) := do
  match ← scanGuard counter body with
  | .complete start stop _ _ => do
      let inner ← body.between start stop
      let statement ← inner.since (← statementOffset counter inner)
      let word ← leadingWord statement
      .ok (word, true)
  | _ => do
      let word ← leadingWord body
      .ok (word, false)

theorem firstKeyword_spec {body : Text} (serves : counter.Serves {} body) :
    ∃ found, firstKeyword counter body = .ok found ∧
      (counter.Counts {} body → SqlDump.firstKeyword body = found) := by
  obtain ⟨scan, scanEq, splits, ideal⟩ := scanGuard_spec serves
  cases scan with
  | complete guard rest =>
      have bodyEq :
          body = guard.opening ++ (guard.inner ++ (closingMarker ++ rest)) := by
        rw [splits guard rest rfl]
        simp only [Guard.raw, Guard.opening, List.append_assoc]
      have innerServes : counter.Serves {} guard.inner := by
        rw [bodyEq] at serves
        exact serves.infix
      obtain ⟨trivia, statement, innerEq, triviaEq, triviaIdeal⟩ :=
        statementOffset_spec innerServes
      have cut :=
        between_append guard.opening guard.inner (closingMarker ++ rest)
      rw [← bodyEq] at cut
      have cutInner := since_append trivia statement
      rw [← innerEq] at cutInner
      refine ⟨(SqlDump.leadingWord statement, true), ?_, fun counts => ?_⟩
      · simp only [firstKeyword, scanEq, Guard.Scan.places, Checked.ok_bind,
          cut, triviaEq, cutInner, leadingWord_spec]
      · have innerCounts : counter.Counts {} guard.inner := by
          rw [bodyEq] at counts
          exact counts.infix
        simp only [SqlDump.firstKeyword, ideal counts,
          ← triviaIdeal innerCounts]
        rw [innerEq, List.drop_left]
  | notGuard =>
      refine ⟨(SqlDump.leadingWord body, false), ?_, fun counts => ?_⟩
      · simp only [firstKeyword, scanEq, Guard.Scan.places, Checked.ok_bind,
          leadingWord_spec]
      · simp only [SqlDump.firstKeyword, ideal counts]
  | incomplete =>
      refine ⟨(SqlDump.leadingWord body, false), ?_, fun counts => ?_⟩
      · simp only [firstKeyword, scanEq, Guard.Scan.places, Checked.ok_bind,
          leadingWord_spec]
      · simp only [SqlDump.firstKeyword, ideal counts]

def startsLine (text : Text) (offset : Nat) (atLineStart : Bool) :
    Checked Bool := do
  let before ← text.upTo offset
  .ok (beginsLine before atLineStart)

theorem startsLine_append (lead body : Text) (atLineStart : Bool) :
    startsLine (lead ++ body) lead.size atLineStart =
      .ok (beginsLine lead atLineStart) := by
  simp only [startsLine, upTo_append, Checked.ok_bind]

end Offset

end SqlDump
