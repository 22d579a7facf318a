import SqlDump.Proofs.Lexer.Reading

/-!
# Guards and leads as readings

A complete guard at the start of a text is a reading from code to code, and so
is the lead of a statement, which is made of trivia and complete guards.
-/

namespace SqlDump

namespace Lexer

variable {lexer : Lexer} {text inner rest : Text}

theorem guardContent?_spec
    (found : lexer.guardContent? text = some (inner, rest)) :
    text = inner ++ (closingMarker ++ rest) ∧
      ∃ steps last, Reads lexer text steps last (closingMarker ++ rest) ∧
        Reads last (closingMarker ++ rest) [.close] {} rest := by
  fun_induction Lexer.guardContent? lexer text generalizing inner rest with
  | case1 => simp at found
  | case2 => simp at found
  | case3 lexer head tail taken after =>
      rename_i decided closes
      simp only [Option.some.injEq, Prod.mk.injEq] at found
      obtain ⟨rfl, rfl⟩ := found
      have stepEq : lexer.step false (head :: tail) = (.close, after) :=
        Prod.ext closes.1 rfl
      obtain ⟨inside, afterEq, behind, split⟩ :=
        (outcome_of_step stepEq (by simp)).close_spec
      have start : after = {} := by
        rw [afterEq]
        exact closeOne_eq_start inside (afterEq ▸ closes.2)
      have readsClose := Reads.of_decided stepEq (by simp)
      rw [start, split] at readsClose
      rw [split]
      exact ⟨rfl, [], lexer, .done _ _, readsClose⟩
  | case4 lexer head tail taken after decided =>
      rename_i stays ih
      simp only [Option.map_eq_some_iff, Prod.mk.injEq] at found
      obtain ⟨⟨laterInner, laterRest⟩, laterFound, rfl, rfl⟩ := found
      obtain ⟨split, steps, last, reads, closes⟩ := ih laterFound
      have stepEq : lexer.step false (head :: tail) = (taken, after) := rfl
      refine ⟨?_, taken :: steps, last, ?_, closes⟩
      · rw [List.append_assoc, ← split, List.take_append_drop]
      · exact (Reads.of_decided stepEq decided).trans reads

end Lexer

namespace Guard

variable {text rest : Text} {guard : Guard}

/-- A complete guard is a marker with its digits and the content up to the
closing marker. -/
theorem step_of_scan (found : scan text = .complete guard rest) :
    ∃ count inside, ({} : Lexer).step false text = (.openGuard count, inside) ∧
      inside.guardContent? (text.drop count) = some (guard.inner, rest) ∧
      (text.take count).drop guardMarker.length = guard.digits := by
  unfold scan at found
  split at found
  · simp at found
  · split at found
    · next count inside opened =>
        split at found
        · next inner laterRest content =>
            simp only [Scan.complete.injEq] at found
            obtain ⟨rfl, rfl⟩ := found
            exact ⟨count, inside, opened, content, rfl⟩
        · simp at found
    · simp at found
    · simp at found

/-- The reading of a complete guard: its opening, its content and its closing
marker. -/
theorem scan_complete (found : scan text = .complete guard rest) :
    text = guard.raw ++ rest ∧
      ∃ opening steps last,
        Lexer.Reads {} text [opening] ({} : Lexer).enterGuard
          (guard.inner ++ (closingMarker ++ rest)) ∧
        Lexer.Reads ({} : Lexer).enterGuard
          (guard.inner ++ (closingMarker ++ rest)) steps last
          (closingMarker ++ rest) ∧
        Lexer.Reads last (closingMarker ++ rest) [.close] {} rest := by
  obtain ⟨count, inside, opened, content, digitsEq⟩ := step_of_scan found
  have readsOpening := Lexer.Reads.of_decided opened (by simp)
  obtain ⟨-, rfl, digits, behind, split, -, -, rfl⟩ :=
    (Lexer.outcome_of_step opened (by simp)).openGuard_spec
  obtain ⟨contentEq, steps, last, reads, closes⟩ :=
    Lexer.guardContent?_spec content
  have dropEq : text.drop (guardMarker.length + digits.length) = behind := by
    rw [split, ← List.append_assoc, ← List.length_append]
    exact List.drop_left' rfl
  have takeEq : (text.take (guardMarker.length + digits.length)).drop
      guardMarker.length = digits := by
    rw [split, ← List.append_assoc, ← List.length_append, List.take_left' rfl]
    exact List.drop_left' rfl
  rw [takeEq] at digitsEq
  rw [dropEq] at contentEq reads
  rw [Step.consumed, dropEq, contentEq] at readsOpening
  rw [contentEq] at reads
  refine ⟨?_, _, steps, last, readsOpening, reads, closes⟩
  rw [split, contentEq, digitsEq]
  simp [raw]

theorem reads_of_scan_complete (found : scan text = .complete guard rest) :
    text = guard.raw ++ rest ∧ ∃ steps, Lexer.Reads {} text steps {} rest := by
  obtain ⟨split, opening, steps, last, opens, reads, closes⟩ :=
    scan_complete found
  exact ⟨split, _, (opens.trans reads).trans closes⟩

end Guard

namespace Lexer

private theorem triviaLength_spec (lexer : Lexer) (text : Text) :
    ∃ steps after,
      Reads lexer text steps after (text.drop (lexer.triviaLength text)) ∧
      (text.drop (lexer.triviaLength text) ≠ [] → after.atTopLevel = true) := by
  fun_induction Lexer.triviaLength lexer text with
  | case1 lexer => exact ⟨[], lexer, .done _ _, by simp⟩
  | case2 lexer head tail blank ih =>
      obtain ⟨steps, after, reads, top⟩ := ih
      simp only [Bool.and_eq_true] at blank
      have readsBlank : Reads lexer (head :: tail) [.skip 1] lexer tail :=
        .plain tail blank.1
          (not_mem_openers_of_isBlank (isBlank_of_isAsciiBlank blank.2))
      rw [Nat.add_comm, List.drop_succ_cons]
      exact ⟨_, after, readsBlank.trans reads, top⟩
  | case3 lexer head tail notBlank stops =>
      refine ⟨[], lexer, .done _ _, fun _ => ?_⟩
      simp only [Bool.and_eq_true] at stops
      exact stops.1
  | case4 lexer head tail notBlank goesOn ih =>
      obtain ⟨steps, after, reads, top⟩ := ih
      have readsComment := Reads.one lexer (List.cons_ne_nil head tail)
      rw [List.drop_drop] at reads top
      exact ⟨_, after, readsComment.trans reads, top⟩

end Lexer

theorem reads_statementOffset (text : Text) :
    text.drop (statementOffset text) ≠ [] →
      ∃ steps,
        Lexer.Reads {} text steps {} (text.drop (statementOffset text)) := by
  intro token
  obtain ⟨steps, after, reads, top⟩ := Lexer.triviaLength_spec {} text
  have start := Lexer.eq_start_of_atTopLevel (reads.proper Lexer.proper_start)
    (top token)
  subst start
  exact ⟨steps, reads⟩

/-- The first text is made of trivia and complete guards, as they stand in front
of the second. -/
inductive Lead : Text → Text → Prop where
  | trivia (text : Text) :
      Lead (text.take (statementOffset text)) (text.drop (statementOffset text))
  | guard {lead rest : Text} {guard : Guard}
      (before : Lead lead (guard.raw ++ rest))
      (complete : Guard.scan (guard.raw ++ rest) = .complete guard rest) :
      Lead (lead ++ (guard.raw ++ rest.take (statementOffset rest)))
        (rest.drop (statementOffset rest))

/-- A lead is read up to a place in code. -/
def Lead.Read (lead body : Text) : Prop :=
  body ≠ [] → ∃ steps, Lexer.Reads {} (lead ++ body) steps {} body

theorem Lead.behind {lead text rest : Text} (before : Lead lead text)
    (read : Lead.Read lead text) (found : Guard.behind? text = some rest) :
    ∃ more, text = more ++ rest ∧ Lead (lead ++ more) rest ∧
      Lead.Read (lead ++ more) rest := by
  unfold Guard.behind? at found
  split at found
  · next guard later scanned =>
      simp only [Option.some.injEq] at found
      subst found
      obtain ⟨split, guardSteps, crossed⟩ :=
        Guard.reads_of_scan_complete scanned
      have parts := List.take_append_drop (statementOffset later) later
      rw [split] at before scanned
      refine ⟨guard.raw ++ later.take (statementOffset later), ?_,
        .guard before scanned, ?_⟩
      · rw [List.append_assoc, parts, split]
      · intro token
        have nonempty : text ≠ [] := by
          rw [split]
          simp [Guard.raw, guardMarker]
        obtain ⟨steps, reached⟩ := read nonempty
        obtain ⟨triviaSteps, triviaRead⟩ := reads_statementOffset later token
        have through := (reached.trans crossed).trans triviaRead
        refine ⟨(steps ++ guardSteps) ++ triviaSteps, ?_⟩
        rw [List.append_assoc, List.append_assoc, parts, ← split]
        exact through
  · simp at found

theorem Lead.skipAll (lead text : Text) (before : Lead lead text)
    (read : Lead.Read lead text) :
    ∃ more, text = more ++ Guard.skipAll text ∧
      Lead (lead ++ more) (Guard.skipAll text) ∧
      Lead.Read (lead ++ more) (Guard.skipAll text) := by
  fun_induction Guard.skipAll text generalizing lead with
  | case1 text rest found ih =>
      obtain ⟨first, textEq, leadsOn, readsOn⟩ := before.behind read found
      obtain ⟨more, restEq, leads, reads⟩ := ih (lead ++ first) leadsOn readsOn
      rw [List.append_assoc] at leads reads
      refine ⟨first ++ more, ?_, leads, reads⟩
      rw [List.append_assoc, ← restEq, textEq]
  | case2 text noGuard =>
      exact ⟨[], rfl, by rwa [List.append_nil], by rwa [List.append_nil]⟩

/-- A unit is its lead and its statement, and the statement begins in code. -/
theorem splitStatement_spec (text : Text) :
    text = (splitStatement text).1 ++ (splitStatement text).2 ∧
      Lead (splitStatement text).1 (splitStatement text).2 ∧
      Lead.Read (splitStatement text).1 (splitStatement text).2 := by
  have parts := List.take_append_drop (statementOffset text) text
  obtain ⟨more, behindEq, leads, reads⟩ :=
    Lead.skipAll _ _ (.trivia text) (by
      unfold Lead.Read
      rw [parts]
      exact reads_statementOffset text)
  have whole : text = (text.take (statementOffset text) ++ more) ++
      Guard.skipAll (text.drop (statementOffset text)) := by
    rw [List.append_assoc, ← behindEq, parts]
  have leadEq : (splitStatement text).1 = text.take (statementOffset text) ++
      more := by
    have lengths := congrArg List.length whole
    rw [List.length_append] at lengths
    have leadLength :
        text.length -
        (Guard.skipAll (text.drop (statementOffset text))).length =
        (text.take (statementOffset text) ++ more).length := by omega
    unfold splitStatement
    dsimp only
    rw [leadLength]
    exact (congrArg (List.take _) whole).trans (List.take_left' rfl)
  rw [leadEq]
  exact ⟨whole, leads, reads⟩

end SqlDump
