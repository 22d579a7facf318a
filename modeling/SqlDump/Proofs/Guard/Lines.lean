import SqlDump.Proofs.Guard.Lead
import SqlDump.Proofs.Lexer.Line
import SqlDump.Proofs.Statement.Chunks

/-!
# Lines of a lead

No place inside a guard is in code.  So where a line of the lead begins in code,
the guards in front of it have ended there, and what is found behind the line
break is what would be found if the unit began with this line.
-/

namespace SqlDump

namespace Lexer

variable {lexer after : Lexer} {text inner rest : Text} {count : Nat}
  {taken : Step}

/-- Only a closing marker leaves the outermost comment. -/
theorem Outcome.depth_pos {input : Text}
    (outcome : Outcome lexer input taken after) (inside : 0 < lexer.depth)
    (stays : ¬(taken = .close ∧ after.depth = 0)) :
    0 < after.depth := by
  have notTop : lexer.atTopLevel ≠ true := fun top => by
    simp only [atTopLevel, Bool.and_eq_true, beq_iff_eq] at top
    omega
  cases outcome with
  | character head tail => exact inside
  | dashes code tail => exact inside
  | marker top tail => exact absurd top notTop
  | openGuard top digits tail => exact absurd top notTop
  | openPlain code tail => exact Nat.succ_pos _
  | close inside tail =>
      exact Nat.pos_of_ne_zero fun outside => stays ⟨rfl, outside⟩

theorem inCodeAt_of_lt_taken (head : Char) (tail : Text)
    (notTop : lexer.atTopLevel = false)
    (within : count < lexer.taken (head :: tail)) :
    lexer.inCodeAt (head :: tail) count = false := by
  cases count with
  | zero => rw [inCodeAt_zero, notTop]
  | succ count =>
      rw [inCodeAt, if_neg (Nat.not_le_of_lt within), notTop, Bool.false_and]

private theorem not_inCodeAt_guardContent
    (found : lexer.guardContent? text = some (inner, rest))
    (inside : 0 < lexer.depth)
    (within : count < inner.length + closingMarker.length) :
    lexer.inCodeAt text count = false := by
  fun_induction Lexer.guardContent? lexer text
    generalizing inner rest count with
  | case1 => simp at found
  | case2 => simp at found
  | case3 lexer head tail taken after =>
      rename_i decided closes
      have notTop : lexer.atTopLevel = false := by
        simp [atTopLevel, Nat.ne_of_gt inside]
      simp only [Option.some.injEq, Prod.mk.injEq] at found
      obtain ⟨rfl, -⟩ := found
      have two : lexer.taken (head :: tail) = 2 := by
        rw [Lexer.taken, step_true_of_decided decided]
        exact congrArg Step.consumed closes.1
      apply inCodeAt_of_lt_taken head tail notTop
      rw [two]
      exact within
  | case4 lexer head tail taken after decided =>
      rename_i stays ih
      have notTop : lexer.atTopLevel = false := by
        simp [atTopLevel, Nat.ne_of_gt inside]
      simp only [Option.map_eq_some_iff, Prod.mk.injEq] at found
      obtain ⟨⟨laterInner, laterRest⟩, laterFound, rfl, rfl⟩ := found
      have same : lexer.step true (head :: tail) = (taken, after) :=
        step_true_of_decided decided
      have takenEq : lexer.taken (head :: tail) = taken.consumed := by
        rw [Lexer.taken, same]
      have nextEq : lexer.next (head :: tail) = after := by rw [next, same]
      rcases Nat.lt_or_ge count taken.consumed with below | above
      · exact inCodeAt_of_lt_taken head tail notTop (takenEq ▸ below)
      · obtain ⟨later, rfl⟩ := Nat.exists_eq_add_of_le above
        have fits := lexer.taken_le (head :: tail)
        rw [takenEq] at fits
        rw [List.length_append, List.length_take_of_le fits] at within
        dsimp only at within
        have shifted := inCodeAt_taken_add lexer head tail later
        rw [takenEq, nextEq] at shifted
        rw [shifted]
        have stepEq : lexer.step false (head :: tail) = (taken, after) := rfl
        apply ih laterFound _ (by omega)
        exact (outcome_of_step stepEq decided).depth_pos inside stays

end Lexer

variable {text rest : Text} {guard : Guard}

theorem not_inCodeAt_guard {count : Nat}
    (found : Guard.scan text = .complete guard rest) (positive : 0 < count)
    (within : count < guard.raw.length) :
    ({} : Lexer).inCodeAt text count = false := by
  have split := (Guard.begins_of_scan found).split
  obtain ⟨taken, inside, opened, content, -⟩ := Guard.step_of_scan found
  have decided : (({} : Lexer).step false text).1 ≠ .needMore := by
    simp [opened]
  have same := (Lexer.step_true_of_decided decided).trans opened
  obtain ⟨behindEq, -⟩ := Lexer.guardContent?_spec content
  have guarded : inside = ({} : Lexer).enterGuard :=
    (Lexer.outcome_of_step opened (by simp)).openGuard_spec.2.1
  cases text with
  | nil => simp [Guard.raw, guardMarker] at split
  | cons head tail =>
      have takenEq : ({} : Lexer).taken (head :: tail) = taken := by
        rw [Lexer.taken, same]
        rfl
      have nextEq : ({} : Lexer).next (head :: tail) = inside := by
        rw [Lexer.next, same]
      have fits := ({} : Lexer).taken_le (head :: tail)
      have lengths := congrArg List.length split
      have behindLengths := congrArg List.length behindEq
      rw [takenEq] at fits
      simp only [List.length_drop, List.length_append] at lengths behindLengths
      rcases Nat.lt_or_ge count taken with below | above
      · obtain ⟨earlier, rfl⟩ :=
          Nat.exists_eq_succ_of_ne_zero (Nat.ne_of_gt positive)
        rw [Lexer.inCodeAt, takenEq, if_neg (Nat.not_le_of_lt below),
          nextEq, guarded]
        rfl
      · obtain ⟨later, rfl⟩ := Nat.exists_eq_add_of_le above
        have shifted := Lexer.inCodeAt_taken_add {} head tail later
        rw [takenEq, nextEq] at shifted
        rw [shifted]
        exact Lexer.not_inCodeAt_guardContent content
          (by rw [guarded]; exact Nat.one_pos)
          (by omega)

private theorem guard_before_line {front : Text}
    (found : Guard.scan (front ++ '\n' :: text) = .complete guard rest)
    (inCode : ({} : Lexer).inCodeAt (front ++ '\n' :: text)
        (front.length + 1) = true) :
    ∃ between, front = guard.raw ++ between ∧
      rest = between ++ '\n' :: text := by
  have split := (Guard.begins_of_scan found).split
  have beyond : guard.raw.length ≤ front.length + 1 := by
    by_contra inside
    have notCode :=
      not_inCodeAt_guard found (Nat.succ_pos front.length) (by omega)
    exact absurd (inCode.symm.trans notCode) (by decide)
  rcases List.append_eq_append_iff.mp split with
      ⟨between, rawEq, lineEq⟩ | ⟨between, rfl, restEq⟩
  · -- A guard ends with a slash, not with a line break.
    cases between with
    | nil => exact ⟨[], by simpa using rawEq.symm, by simpa using lineEq.symm⟩
    | cons head between =>
        obtain ⟨rfl, -⟩ := List.cons.inj lineEq
        have nothing : between = [] := by
          rw [rawEq, List.length_append, List.length_cons] at beyond
          exact List.length_eq_zero_iff.mp (by omega)
        have last := congrArg List.getLast? rawEq
        rw [nothing, List.getLast?_concat] at last
        simp [Guard.raw, closingMarker, List.getLast?_append] at last
  · exact ⟨between, rfl, restEq⟩

theorem splitStatement_of_scan
    (scanned : Guard.scan (text.drop (statementOffset text)) =
        .complete guard rest) :
    (splitStatement text).2 = (splitStatement rest).2 := by
  have found : Guard.behind? (text.drop (statementOffset text)) =
      some (rest.drop (statementOffset rest)) := by rw [Guard.behind?, scanned]
  exact Guard.skipAll_of_behind found

/-- A guard that the lead begins with leaves the lines behind it as they are. -/
theorem splitStatement_guard {front first : Text} {count : Nat}
    (within : count ≤ front.length)
    (dropEq : ∀ rest : Text,
      (front ++ '\n' :: rest).drop (statementOffset (front ++ '\n' :: rest)) =
        front.drop count ++ '\n' :: rest)
    (scanned : Guard.scan (front.drop count ++ '\n' :: first) =
        .complete guard rest)
    (inCode : ({} : Lexer).inCodeAt (front ++ '\n' :: first)
        (front.length + 1) = true) :
    ∃ between : Text, between.length < front.length ∧
      ({} : Lexer).inCodeAt (between ++ '\n' :: first) (between.length + 1) =
        true ∧
      ∀ second, (splitStatement (front ++ '\n' :: second)).2 =
        (splitStatement (between ++ '\n' :: second)).2 := by
  obtain ⟨tokenSteps, reads⟩ :=
    reads_statementOffset (front ++ '\n' :: first) (by simp [dropEq])
  have lengthEq : front.length + 1 =
      (front.take count).length + ((front.drop count).length + 1) := by
    rw [List.length_take_of_le within, List.length_drop]
    omega
  have parts (rest : Text) :
      front.take count ++ (front.drop count ++ '\n' :: rest) =
        front ++ '\n' :: rest := by
    rw [← List.append_assoc, List.take_append_drop]
  rw [dropEq, ← parts] at reads
  rw [← parts, lengthEq, inCodeAt_behind reads] at inCode
  obtain ⟨between, frontEq, rfl⟩ := guard_before_line scanned inCode
  obtain ⟨splitGuard, guardSteps, crossed⟩ :=
    Guard.reads_of_scan_complete scanned
  rw [frontEq, List.append_assoc] at crossed
  refine ⟨between, ?_, ?_, fun second => ?_⟩
  · have lengths := congrArg List.length frontEq
    have marked : 0 < guard.raw.length := by simp [Guard.raw, guardMarker]
    rw [List.length_drop, List.length_append] at lengths
    omega
  · rwa [frontEq, List.length_append, List.append_assoc, Nat.add_assoc,
      inCodeAt_behind crossed] at inCode
  · have there : Guard.scan (front.drop count ++ '\n' :: second) =
        .complete guard (between ++ '\n' :: second) := by
      rw [frontEq, List.append_assoc]
      exact (Guard.begins_of_scan scanned).front _
    exact splitStatement_of_scan (by rw [dropEq, there])

/-- What stands in front of a line of the lead does not matter for what is found
behind it. -/
theorem splitStatement_line (front first : Text)
    (inCode : ({} : Lexer).inCodeAt (front ++ '\n' :: first)
        (front.length + 1) = true)
    (inLead : (splitStatement (front ++ '\n' :: first)).2.length ≤ first.length)
    (second : Text) :
    (splitStatement (front ++ '\n' :: second)).2 =
      (splitStatement second).2 := by
  induction bound : front.length using Nat.strongRecOn generalizing front with
  | _ size ih =>
      rcases Lexer.triviaLength_break {} front with ⟨count, within, offset⟩ |
        ⟨steps, after, passes⟩
      · -- A token begins in front of the line break.  As it is not the
        -- statement, it is a guard.
        have dropEq (rest : Text) : (front ++ '\n' :: rest).drop
            (statementOffset (front ++ '\n' :: rest)) = front.drop count ++
            '\n' :: rest := by
          rw [statementOffset, offset, List.drop_append_of_le_length within]
        cases scanned : Guard.scan (front.drop count ++ '\n' :: first) with
        | complete guard later =>
            obtain ⟨between, shorter, inCodeLater, same⟩ :=
              splitStatement_guard within dropEq scanned inCode
            rw [same]
            exact ih between.length (bound ▸ shorter) between inCodeLater
              (same first ▸ inLead) rfl
        | notGuard | incomplete =>
            have noGuard : Guard.behind? (front.drop count ++ '\n' :: first) =
                none := by
              rw [Guard.behind?, scanned]
            rw [splitStatement, dropEq, Guard.skipAll_of_notGuard noGuard,
              List.length_append, List.length_cons] at inLead
            omega
      · obtain ⟨reads, -⟩ := passes first
        have linesEq (rest : Text) : front ++ '\n' :: rest =
          (front ++ ['\n']) ++ rest := by simp
        have lengthEq : (front ++ ['\n']).length = front.length + 1 := by simp
        rw [linesEq] at reads
        rw [linesEq, ← lengthEq, reads.inCodeAt_append] at inCode
        obtain rfl :=
          Lexer.eq_start_of_atTopLevel (reads.proper Lexer.proper_start) inCode
        have offset := (passes second).2
        rw [splitStatement, splitStatement, statementOffset, offset, linesEq,
          ← lengthEq, ← List.drop_drop, List.drop_left]
        rfl

variable {front first : Text}

theorem inCodeAt_endsLine (ends : endsLine front = true) (first second : Text) :
    ({} : Lexer).inCodeAt (front ++ first) front.length =
      ({} : Lexer).inCodeAt (front ++ second) front.length := by
  rcases endsLine_iff.mp ends with rfl | ⟨line, rfl⟩
  · rw [List.length_nil, Lexer.inCodeAt_zero, Lexer.inCodeAt_zero]
  · obtain ⟨steps, after, -, reads⟩ := Lexer.reads_break {} line
    have each (rest : Text) :
        ({} : Lexer).inCodeAt (line ++ ['\n'] ++ rest) (line ++ ['\n']).length =
          after.atTopLevel := by
      have whole := reads rest
      rw [← List.singleton_append, ← List.append_assoc] at whole
      exact whole.inCodeAt_append
    rw [each, each]

theorem splitStatement_endsLine (ends : endsLine front = true)
    (inCode : ({} : Lexer).inCodeAt (front ++ first) front.length = true)
    (inLead : (splitStatement (front ++ first)).2.length ≤ first.length)
    (second : Text) :
    (splitStatement (front ++ second)).2 = (splitStatement second).2 := by
  rcases endsLine_iff.mp ends with rfl | ⟨line, rfl⟩
  · rfl
  · rw [List.append_assoc, List.singleton_append] at inCode inLead ⊢
    rw [List.length_append, List.length_singleton] at inCode
    exact splitStatement_line line first inCode inLead second

theorem splitStatement_comment {line : Text} (noBreak : '\n' ∉ line) :
    (∀ rest, (splitStatement ('-' :: '-' :: ' ' :: line ++ '\n' :: rest)).2 =
      (splitStatement rest).2) ∧
      (splitStatement ('-' :: '-' :: ' ' :: line)).2 = [] := by
  have begins (rest : Text) :
      BeginsLineComment ('-' :: '-' :: ' ' :: line ++ rest) :=
    .inr ⟨' ', line ++ rest, rfl, .inl rfl⟩
  have noBreak : '\n' ∉ '-' :: '-' :: ' ' :: line := by simp [noBreak]
  constructor
  · intro rest
    have trivia := Trivia.line (begins ['\n']) noBreak .nil
    have offset := statementOffset_append trivia rest
    rw [List.append_assoc, List.singleton_append] at offset
    have dropEq : ('-' :: '-' :: ' ' :: line ++ '\n' :: rest).drop
        (statementOffset ('-' :: '-' :: ' ' :: line ++ '\n' :: rest)) =
          rest.drop (statementOffset rest) := by
      have parts : '-' :: '-' :: ' ' :: line ++ '\n' :: rest =
          ('-' :: '-' :: ' ' :: line ++ ['\n']) ++ rest := by simp
      rw [offset, ← List.drop_drop, parts, List.drop_left]
    rw [splitStatement, splitStatement, dropEq]
  · have comment : BeginsLineComment ('-' :: '-' :: ' ' :: line ++ []) :=
      begins []
    have skips := Lexer.skips_lineStart comment noBreak (.inl rfl)
    have offset : statementOffset ('-' :: '-' :: ' ' :: line) =
        ('-' :: '-' :: ' ' :: line).length := by
      unfold Lexer.Skips at skips
      rw [List.append_nil] at skips
      simpa [statementOffset, Lexer.triviaLength] using skips
    rw [splitStatement, offset, List.drop_length,
      Guard.skipAll_of_notGuard (by decide)]

end SqlDump
