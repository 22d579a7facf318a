import SqlDump.Proofs.Lexer.Waiting
import SqlDump.Proofs.Offset.Assemble
import SqlDump.Proofs.Offset.Counters
import SqlDump.Proofs.Offset.Scan

/-!
# Loops that come forward

A step that is decided takes a character of the buffer or more, and with the end
in sight every step is decided.  A loop over bytes whose turns all take a byte
or more ends, after no more turns than there are bytes in front of it, and the
loops that lex are of this kind.
-/

namespace SqlDump

/-- What gives a result has passed its first part. -/
theorem Checked.of_bind {α β : Type} {first : Checked α} {next : α → Checked β}
    {result : β} (ran : (first >>= next) = .ok result) :
    ∃ value, first = .ok value ∧ next value = .ok result := by
  cases first with
  | error fault => exact absurd ran (by simp [Bind.bind, Except.bind])
  | ok value => exact ⟨value, rfl, ran⟩

namespace Lexer

variable {counter : DepthCounter} {lexer : Lexer} {buffer : Text} {place : Nat}
  {atEnd : Bool}

theorem consumed_step_drop (within : place < buffer.length)
    (decided : (lexer.step atEnd (buffer.drop place)).1 ≠ .needMore) :
    1 ≤ (lexer.step atEnd (buffer.drop place)).1.consumed ∧
      place + (lexer.step atEnd (buffer.drop place)).1.consumed ≤
        buffer.length := by
  have progress :=
    lexer.step_eq_needMore_or_consumed_pos atEnd (buffer.drop place)
  have fits := lexer.consumed_step_le atEnd (buffer.drop place)
  rw [List.length_drop] at fits
  exact ⟨progress.resolve_left decided, by omega⟩

theorem step_true_drop_ne_needMore (within : place < buffer.length) :
    (lexer.step true (buffer.drop place)).1 ≠ .needMore := by
  rw [List.drop_eq_getElem_cons within]
  exact step_true_ne_needMore _ _

/-- Counting the comment that a step opens does not change what the step takes.
Only the counter can fail. -/
theorem counted_cases (counter : DepthCounter) (lexer : Lexer)
    (stepped : Step × Lexer) :
    (∃ after, lexer.counted counter stepped = .ok (stepped.1, after)) ∨
      stepped.1 = .openPlain ∧ ∃ fault, counter lexer.depth = .error fault ∧
        lexer.counted counter stepped = .error fault := by
  obtain ⟨taken, after⟩ := stepped
  cases taken with
  | openPlain =>
      rw [Lexer.counted, openChecked]
      cases counter lexer.depth with
      | error fault => exact .inr ⟨rfl, fault, rfl, rfl⟩
      | ok depth => exact .inl ⟨{ lexer with depth := depth }, rfl⟩
  | skip count => exact .inl ⟨after, rfl⟩
  | openGuard count => exact .inl ⟨after, rfl⟩
  | close => exact .inl ⟨after, rfl⟩
  | needMore => exact .inl ⟨after, rfl⟩

/-- A step over bytes takes what the step takes that sees the bytes from the
place on. -/
theorem stepChecked_cases (counter : DepthCounter) (lexer : Lexer)
    (atEnd : Bool) (within : place < buffer.length) :
    (∃ after, lexer.stepChecked counter buffer place atEnd =
        .ok ((lexer.step atEnd (buffer.drop place)).1, after)) ∨
      (lexer.step atEnd (buffer.drop place)).1 = .openPlain ∧
        ∃ fault, counter lexer.depth = .error fault ∧
          lexer.stepChecked counter buffer place atEnd = .error fault := by
  have here := List.drop_eq_getElem_cons within
  rw [stepChecked_eq here, ← here]
  exact counted_cases counter lexer _

theorem fst_of_stepChecked {stepped : Step × Lexer}
    (stepEq : lexer.stepChecked counter buffer place atEnd = .ok stepped) :
    place < buffer.length ∧
      stepped.1 = (lexer.step atEnd (buffer.drop place)).1 := by
  by_cases within : place < buffer.length
  · refine ⟨within, ?_⟩
    rcases stepChecked_cases counter lexer atEnd within with
      ⟨after, sameStep⟩ | ⟨-, fault, -, failed⟩
    · rw [Except.ok.inj (stepEq.symm.trans sameStep)]
    · exact absurd (stepEq.symm.trans failed) (by simp)
  · have beyond : buffer[place]? = none :=
      List.getElem?_eq_none_iff.mpr (Nat.le_of_not_lt within)
    obtain ⟨octet, octetEq, -⟩ := Checked.of_bind stepEq
    simp [Text.octetAt, beyond] at octetEq

theorem consumed_pos_of_stepChecked {stepped : Step × Lexer}
    (stepEq : lexer.stepChecked counter buffer place atEnd = .ok stepped)
    (decided : stepped.1 ≠ .needMore) : 0 < stepped.1.consumed := by
  obtain ⟨within, same⟩ := fst_of_stepChecked stepEq
  rw [same] at decided ⊢
  exact (consumed_step_drop within decided).1

theorem consumed_pos_of_stepChecked_true {stepped : Step × Lexer}
    (stepEq : lexer.stepChecked counter buffer place true = .ok stepped) :
    0 < stepped.1.consumed := by
  obtain ⟨within, same⟩ := fst_of_stepChecked stepEq
  exact consumed_pos_of_stepChecked stepEq
    (same ▸ step_true_drop_ne_needMore within)

/-- What a step over bytes leaves.  Where a comment opens, the depth is what the
counter gives. -/
structure Leaves (counter : DepthCounter) (lexer : Lexer) (atEnd : Bool)
    (input : Text) (taken : Step) (after : Lexer) : Prop where
  taken_eq : (lexer.step atEnd input).1 = taken
  lex_eq : after.lex = (lexer.step atEnd input).2.lex
  guarded_eq : after.guarded = (lexer.step atEnd input).2.guarded
  depth_eq : taken = .openPlain → counter lexer.depth = .ok after.depth
  after_eq : taken ≠ .openPlain → after = (lexer.step atEnd input).2

variable {taken : Step} {after : Lexer} {input : Text}

theorem Leaves.outcome (leaves : Leaves counter lexer atEnd input taken after)
    (decided : taken ≠ .needMore) :
    Outcome lexer input taken (lexer.step atEnd input).2 := by
  have takenEq := leaves.taken_eq
  subst takenEq
  exact outcome_step decided

theorem Leaves.eq_of_needMore
    (leaves : Leaves counter lexer atEnd input .needMore after) :
    after = lexer := by
  rw [leaves.after_eq (by simp), step_of_needMore leaves.taken_eq]

private theorem leaves_of_counted
    (countedEq : lexer.counted counter (lexer.step atEnd input) =
        .ok (taken, after)) :
    Leaves counter lexer atEnd input taken after := by
  by_cases opens : (lexer.step atEnd input).1 = .openPlain
  · have outcome :=
      outcome_step (by simp [opens] : (lexer.step atEnd input).1 ≠ .needMore)
    rw [opens] at outcome
    obtain ⟨-, nextEq⟩ := outcome.openPlain_spec
    have stepEq : lexer.step atEnd input = (.openPlain, lexer.openOne) :=
      Prod.ext opens nextEq
    rw [stepEq] at countedEq
    obtain ⟨depth, depthEq, afterEq⟩ := Checked.of_bind countedEq
    obtain ⟨rfl, rfl⟩ := Prod.mk.inj (Except.ok.inj afterEq)
    refine ⟨opens, ?_, ?_, fun _ => depthEq, fun other => absurd rfl other⟩ <;>
      rw [nextEq] <;> rfl
  · have kept : lexer.counted counter (lexer.step atEnd input) =
        .ok (lexer.step atEnd input) := by
      generalize lexer.step atEnd input = stepped at opens
      unfold Lexer.counted
      split
      · exact absurd rfl opens
      · rfl
    have stepEq := Except.ok.inj (kept.symm.trans countedEq)
    rw [stepEq] at opens
    refine ⟨?_, ?_, ?_, fun opened => absurd opened opens, fun _ => ?_⟩ <;>
      rw [stepEq]

theorem leaves_of_stepChecked
    (stepEq : lexer.stepChecked counter buffer place atEnd =
        .ok (taken, after)) :
    Leaves counter lexer atEnd (buffer.drop place) taken after := by
  obtain ⟨within, -⟩ := fst_of_stepChecked stepEq
  have here := List.drop_eq_getElem_cons within
  rw [stepChecked_eq here, ← here] at stepEq
  exact leaves_of_counted stepEq

end Lexer

/-- The loop as it runs: from a place on it takes so many turns and has this
result. -/
inductive RunsLoop {σ α : Type} (length : Nat)
    (turn : σ → Nat → Checked (Turn σ α)) (last : σ → Nat → α) :
    σ → Nat → Nat → Checked α → Prop where
  | ended {state : σ} {place : Nat} (beyond : length ≤ place) :
      RunsLoop length turn last state place 0 (.ok (last state place))
  | stopped {state : σ} {place : Nat} {answer : α} (within : place < length)
      (stops : turn state place = .ok (.stop answer)) :
      RunsLoop length turn last state place 1 (.ok answer)
  | failed {state : σ} {place : Nat} {fault : OffsetFault}
      (within : place < length) (fails : turn state place = .error fault) :
      RunsLoop length turn last state place 1 (.error fault)
  | goesOn {state next : σ} {place count turns : Nat} {result : Checked α}
      (within : place < length)
      (taken : turn state place = .ok (.goOn next count))
      (later : RunsLoop length turn last next (place + count) turns result) :
      RunsLoop length turn last state place (turns + 1) result

/-- A turn that goes on takes a byte or more. -/
def Forward {σ α : Type} (turned : Checked (Turn σ α)) : Prop :=
  ∀ next count, turned = .ok (.goOn next count) → 0 < count

section

variable {σ α β : Type} {length : Nat} {turn : σ → Nat → Checked (Turn σ α)}

theorem runsLoop_walk (forward : ∀ state place, Forward (turn state place))
    (last : σ → Nat → α) (state : σ) (place : Nat) :
    ∃ turns, turns ≤ length - place ∧
      RunsLoop length turn last state place turns
        (walk length turn last state place) := by
  induction left : length - place using Nat.strongRecOn
    generalizing state place with
  | ind left ih =>
      by_cases within : place < length
      · cases turned : turn state place with
        | error fault =>
            have failed : walk length turn last state place = .error fault := by
              rw [walk, if_pos within, turned]
            rw [failed]
            exact ⟨1, by omega, .failed within turned⟩
        | ok taken =>
            cases taken with
            | stop answer =>
                rw [walk_stop within turned]
                exact ⟨1, by omega, .stopped within turned⟩
            | goOn next count =>
                have positive := forward state place next count turned
                obtain ⟨turns, few, runs⟩ :=
                  ih (length - (place + count)) (by omega) next (place + count)
                    rfl
                rw [walk_goOn within turned positive]
                exact ⟨turns + 1, by omega, .goesOn within turned runs⟩
      · rw [walk_end state (Nat.le_of_not_lt within)]
        exact ⟨0, Nat.zero_le _, .ended (Nat.le_of_not_lt within)⟩

/-- What holds of every answer of a turn and of the one at the end holds of what
the loop gives. -/
theorem RunsLoop.holds {last : σ → Nat → α} {good : α → Prop} {state : σ}
    {place turns : Nat} {result : Checked α}
    (runs : RunsLoop length turn last state place turns result)
    (stops : ∀ state place answer, turn state place = .ok (.stop answer) →
      good answer)
    (ends : ∀ state place, length ≤ place → good (last state place))
    (answer : α) (found : result = .ok answer) : good answer := by
  induction runs with
  | ended beyond => exact Except.ok.inj found ▸ ends _ _ beyond
  | stopped within turned => exact Except.ok.inj found ▸ stops _ _ _ turned
  | failed within fails => simp at found
  | goesOn within taken later ih => exact ih found

theorem forward_stop (answer : α) :
    Forward (.ok (.stop answer) : Checked (Turn σ α)) := by
  intro next count goesOn
  simp at goesOn

theorem forward_goOn (state : σ) {count : Nat} (positive : 0 < count) :
    Forward (.ok (.goOn state count) : Checked (Turn σ α)) := by
  intro next other goesOn
  obtain ⟨-, rfl⟩ := Turn.goOn.inj (Except.ok.inj goesOn)
  exact positive

theorem Forward.bind {first : Checked β} {next : β → Checked (Turn σ α)}
    (later : ∀ value, first = .ok value → Forward (next value)) :
    Forward (first >>= next) := by
  intro state count goesOn
  obtain ⟨value, firstEq, rest⟩ := Checked.of_bind goesOn
  exact later value firstEq state count rest

end

namespace Offset

variable {counter : DepthCounter} {lexer : Lexer} {octets : Text} {place : Nat}

private theorem forward_triviaTurn :
    Forward (triviaTurn counter octets lexer place) := by
  refine .bind fun octet _ => ?_
  split
  · exact forward_goOn lexer Nat.one_pos
  · refine .bind fun stepped stepEq => ?_
    dsimp only
    split
    · exact forward_stop place
    · exact forward_goOn _ (Lexer.consumed_pos_of_stepChecked_true stepEq)

private theorem forward_findTurn (target : Char) :
    Forward (findTurn counter octets target lexer place) := by
  refine .bind fun octet _ => ?_
  split
  · exact forward_stop (some place)
  · refine .bind fun stepped stepEq => ?_
    exact forward_goOn _ (Lexer.consumed_pos_of_stepChecked_true stepEq)

private theorem forward_closingTurn (state : Lexer × Nat) :
    Forward (closingTurn counter octets state place) := by
  refine .bind fun octet _ => .bind fun depth _ => ?_
  split
  · exact forward_stop (some place)
  · refine .bind fun stepped stepEq => ?_
    exact forward_goOn _ (Lexer.consumed_pos_of_stepChecked_true stepEq)

private theorem forward_lexTurn (limit : Nat) :
    Forward (lexTurn counter octets limit lexer place) := by
  unfold lexTurn
  split
  · exact forward_stop (lexer, place)
  · refine .bind fun stepped stepEq => ?_
    exact forward_goOn _ (Lexer.consumed_pos_of_stepChecked_true stepEq)

theorem forward_contentTurn (start version : Nat) :
    Forward (contentTurn counter octets start version lexer place) := by
  refine .bind fun stepped stepEq => ?_
  dsimp only
  split
  · exact forward_stop _
  · next decided =>
      split
      · exact forward_stop _
      · exact forward_goOn _ (Lexer.consumed_pos_of_stepChecked stepEq decided)

theorem forward_scanTurn (input : Text) (atEnd : Bool) (scanning : Scanning) :
    Forward (scanTurn counter input octets atEnd scanning place) := by
  refine .bind fun octet _ => .bind fun stepped stepEq => ?_
  dsimp only
  split
  · exact forward_stop _
  · next decided =>
      refine .bind fun advanced _ => ?_
      exact forward_goOn _ (Lexer.consumed_pos_of_stepChecked stepEq decided)

private theorem directiveSize_pos {atEnd : Bool} {text : Text} {length : Nat}
    (found : directiveSize atEnd text = .ok (.found length)) : 0 < length := by
  rw [directiveSize_eq] at found
  cases probe : directiveLength atEnd text with
  | absent => simp [probe, Probe.map] at found
  | needMore => simp [probe, Probe.map] at found
  | found count =>
      have positive := StatementAssembler.directiveLength_pos probe
      have nonempty : text ≠ [] := by
        rintro rfl
        simp only [directiveLength, List.drop_nil] at probe
        split at probe <;> simp at probe
      rw [probe, Probe.map, Except.ok.injEq, Probe.found.injEq] at found
      rw [← found]
      apply Text.size_pos
      rw [Ne, List.take_eq_nil_iff]
      exact not_or_intro (Nat.ne_of_gt positive) nonempty

private theorem forward_lexUnit (atEnd : Bool) (draining : Draining)
    (octet : Char) :
    Forward (lexUnit counter octets atEnd draining octet place) := by
  refine .bind fun stepped stepEq => ?_
  dsimp only
  split
  · exact forward_stop (draining, place)
  · next decided =>
      exact forward_goOn _ (Lexer.consumed_pos_of_stepChecked stepEq decided)

private theorem forward_unitTurn (buffer : Text) (atEnd : Bool)
    (draining : Draining) (octet : Char) :
    Forward (unitTurn counter buffer octets atEnd draining octet place) := by
  refine .bind fun rest _ => ?_
  dsimp only
  split
  · refine .bind fun behind _ => ?_
    split
    · exact forward_stop (draining, place)
    · refine .bind fun taken _ => ?_
      exact forward_goOn taken
        (Nat.add_pos_left (Text.size_pos draining.assembler.delimiter.nonempty)
            _)
  · refine .bind fun waits _ => ?_
    split
    · exact forward_stop (draining, place)
    · exact forward_lexUnit atEnd draining octet

private theorem forward_drainTurn (buffer : Text) (atEnd : Bool)
    (draining : Draining) :
    Forward (drainTurn counter buffer octets atEnd draining place) := by
  refine .bind fun octet _ => .bind fun probe probeEq => ?_
  cases probe with
  | needMore => exact forward_stop (draining, place)
  | absent => exact forward_unitTurn buffer atEnd draining octet
  | found length =>
      refine .bind fun taken _ => ?_
      unfold Draining.directiveAt at probeEq
      split at probeEq
      · obtain ⟨rest, -, found⟩ := Checked.of_bind probeEq
        exact forward_goOn taken (directiveSize_pos found)
      · simp at probeEq

/-- The turns of the loops that take the steps of a lexer. -/
inductive LexingTurn (counter : DepthCounter) :
    {σ α : Type} → (σ → Nat → Checked (Turn σ α)) → Prop where
  | trivia (octets : Text) : LexingTurn counter (triviaTurn counter octets)
  | find (octets : Text) (target : Char) :
      LexingTurn counter (findTurn counter octets target)
  | closing (octets : Text) : LexingTurn counter (closingTurn counter octets)
  | upTo (octets : Text) (limit : Nat) :
      LexingTurn counter (lexTurn counter octets limit)
  | content (octets : Text) (start version : Nat) :
      LexingTurn counter (contentTurn counter octets start version)
  | scan (input octets : Text) (atEnd : Bool) :
      LexingTurn counter (scanTurn counter input octets atEnd)
  | drain (buffer octets : Text) (atEnd : Bool) :
      LexingTurn counter (drainTurn counter buffer octets atEnd)

theorem LexingTurn.forward {σ α : Type} {turn : σ → Nat → Checked (Turn σ α)}
    (lexes : LexingTurn counter turn) (state : σ) (place : Nat) :
    Forward (turn state place) := by
  cases lexes with
  | trivia octets => exact forward_triviaTurn
  | find octets target => exact forward_findTurn target
  | closing octets => exact forward_closingTurn state
  | upTo octets limit => exact forward_lexTurn limit
  | content octets start version => exact forward_contentTurn start version
  | scan input octets atEnd => exact forward_scanTurn input atEnd state
  | drain buffer octets atEnd => exact forward_drainTurn buffer atEnd state

end Offset

end SqlDump
