import SqlDump.Proofs.Guard.Content
import SqlDump.Proofs.Lexer.Waiting
import SqlDump.Proofs.Segment.Document

/-!
# The first segment of a stream

The scanner begins with a guard exactly if a look at the start of the whole text
finds it, whatever the chunks that bring the text.
-/

namespace SqlDump

namespace Scanner

variable {scanner : Scanner} {atEnd : Bool} {lexer : Lexer}
  {text inner rest : Text}

def feedAll (scanner : Scanner) : List Text → Scanner × List Segment
  | [] => (scanner, [])
  | chunk :: chunks =>
      (((scanner.feed chunk).1.feedAll chunks).1,
        (scanner.feed chunk).2 ++ ((scanner.feed chunk).1.feedAll chunks).2)

/-- The segments of a stream that comes in chunks and then ends. -/
def segmentsIn (chunks : List Text) : List Segment :=
  (({} : Scanner).feedAll chunks).2 ++
  (({} : Scanner).feedAll chunks).1.finish.2.1

/-- Chunks go on where the text before them stopped. -/
theorem feedAll_scan (first : Text) (chunks : List Text) :
    (((({} : Scanner).scan false first).1).feedAll chunks).1 =
        (({} : Scanner).scan false (first ++ chunks.flatten)).1 ∧
      atomsOf (({} : Scanner).scan false (first ++ chunks.flatten)).2 =
        atomsOf (({} : Scanner).scan false first).2 ++
          atomsOf (((({} : Scanner).scan false first).1).feedAll chunks).2 := by
  induction chunks generalizing first with
  | nil => simp [feedAll]
  | cons chunk chunks ih =>
      obtain ⟨fedState, fedAtoms⟩ :=
        scan_append false ({} : Scanner) first chunk
      obtain ⟨laterState, laterAtoms⟩ := ih (first ++ chunk)
      rw [fedState] at laterState laterAtoms
      rw [List.flatten_cons, ← List.append_assoc]
      refine ⟨laterState, ?_⟩
      rw [laterAtoms, fedAtoms, feedAll, atomsOf_append, List.append_assoc]
      rfl

theorem text_nil_not_mem_textSegment (reversed : Text) :
    .text [] ∉ textSegment reversed := by
  unfold textSegment
  split
  · simp
  · next visible => simpa using fun empty => visible empty

theorem text_nil_not_mem_release (scanner : Scanner) :
    .text [] ∉ scanner.release.2 := by
  unfold release
  split
  · simp
  · exact text_nil_not_mem_textSegment scanner.gathered

private theorem text_nil_not_mem_advance (scanner : Scanner) (taken : Step)
    (after : Lexer) (piece : Text) :
    .text [] ∉ (scanner.advance taken after piece).2 := by
  unfold advance
  cases taken with
  | needMore => simp
  | openGuard count => exact text_nil_not_mem_textSegment scanner.gathered
  | openPlain => dsimp only; split <;> simp
  | close => dsimp only; split <;> simp
  | skip count => dsimp only; split <;> simp

theorem text_nil_not_mem_scan (atEnd : Bool) (scanner : Scanner) (text : Text) :
    .text [] ∉ (scanner.scan atEnd text).2 := by
  induction scanner, text using scan_induction atEnd with
  | nil scanner =>
      rw [scan_nil]
      exact text_nil_not_mem_release (scanner.withAhead [])
  | wait scanner head tail waits =>
      rw [scan_of_needMore scanner waits]
      exact text_nil_not_mem_release (scanner.withAhead (head :: tail))
  | step scanner head tail taken after stepEq decided ih =>
      rw [scan_of_decided scanner stepEq decided, List.mem_append, not_or]
      exact ⟨text_nil_not_mem_advance scanner taken after _, ih⟩

private theorem text_nil_not_mem_feedAll (scanner : Scanner)
    (chunks : List Text) :
    .text [] ∉ (scanner.feedAll chunks).2 := by
  induction chunks generalizing scanner with
  | nil => simp [feedAll]
  | cons chunk chunks ih =>
      rw [feedAll, List.mem_append, not_or]
      exact ⟨text_nil_not_mem_scan false scanner _, ih _⟩

private theorem text_nil_not_mem_finish (scanner : Scanner) :
    .text [] ∉ scanner.finish.2.1 := by
  rw [finish, List.mem_append, not_or]
  refine ⟨text_nil_not_mem_scan true scanner _, ?_⟩
  split <;> simp [guardMarker]

theorem head?_atomsOf {segments : List Segment} (visible : .text [] ∉ segments)
    (guard : Guard) (line : Nat) :
    segments.head? = some (.guard guard line) ↔
      (atomsOf segments).head? = some (.guard guard line) := by
  cases segments with
  | nil => simp
  | cons segment segments =>
      cases segment with
      | guard opened openedAt => simp [Segment.atoms]
      | text piece =>
          cases piece with
          | nil => simp at visible
          | cons head tail => simp [Segment.atoms]

private theorem scan_of_noClosing (atEnd : Bool) (scanner : Scanner)
    (text : Text) (proper : scanner.lexer.Proper)
    (guarded : scanner.lexer.guarded = true)
    (noClosing : ¬closingMarker <:+: text) :
    (scanner.scan atEnd text).2 = [] := by
  induction scanner, text using scan_induction atEnd with
  | nil scanner =>
      rw [scan_nil]
      simp [release, withAhead, guarded]
  | wait scanner head tail waits =>
      rw [scan_of_needMore scanner waits]
      simp [release, withAhead, guarded]
  | step scanner head tail taken after stepEq decided ih =>
      have stays : ¬(taken = .close ∧ after.depth = 0) := by
        rintro ⟨rfl, -⟩
        obtain ⟨-, -, behind, split⟩ :=
          (Lexer.outcome_of_step stepEq decided).close_spec
        exact noClosing ⟨[], behind, split.symm⟩
      obtain ⟨nothing, lexerEq, -, -, -, stillProper, stillGuarded⟩ :=
        advance_inGuard ((head :: tail).take taken.consumed) stepEq decided
          proper guarded stays
      rw [scan_of_decided scanner stepEq decided, nothing, List.nil_append]
      apply ih (by rwa [lexerEq]) (by rwa [lexerEq])
      exact fun found => noClosing (found.trans (List.drop_suffix _ _).isInfix)

private theorem noClosing_of_waits (waits : Lexer.Waits lexer text)
    (inside : 0 < lexer.depth) :
    ¬closingMarker <:+: text := by
  have deep (top : lexer.atTopLevel = true) : False := by
    simp only [Lexer.atTopLevel, Bool.and_eq_true, beq_iff_eq] at top
    exact Nat.ne_of_gt inside top.1
  cases waits with
  | star inside => decide
  | slash code => decide
  | opening top => exact (deep top).elim
  | marker top digits allDigits => exact (deep top).elim
  | dash code => decide
  | dashes code => decide

theorem step_of_decided {head : Char} {tail : Text} {taken : Step}
    {after : Lexer} (stepEq : lexer.step false (head :: tail) = (taken, after))
    (decided : taken ≠ .needMore) (atEnd : Bool) :
    lexer.step atEnd (head :: tail) = (taken, after) := by
  have stands := Lexer.step_append atEnd [] (by rwa [stepEq])
  rwa [List.append_nil, stepEq] at stands

/-- A scanner inside a guard gives nothing before the guard is closed. -/
theorem head?_scan_inGuard (atEnd : Bool) (lexer : Lexer) (text : Text)
    (same : scanner.lexer = lexer) (proper : lexer.Proper)
    (guarded : lexer.guarded = true) :
    (scanner.scan atEnd text).2.head? =
      (lexer.guardContent? text).map fun (inner, _) =>
        .guard ⟨scanner.digits, scanner.gathered.reverse ++ inner⟩
          scanner.openedAt := by
  fun_induction Lexer.guardContent? lexer text generalizing scanner with
  | case1 lexer =>
      rw [scan_nil]
      simp [release, withAhead, same, guarded]
  | case2 lexer head tail taken =>
      rename_i waits
      subst same
      have undecided :=
        Lexer.waits_of_needMore (List.cons_ne_nil head tail) waits
      rw [scan_of_noClosing atEnd scanner (head :: tail) proper guarded
        (noClosing_of_waits undecided (proper guarded))]
      rfl
  | case3 lexer head tail taken after =>
      rename_i decided closes
      subst same
      have stepEq : scanner.lexer.step atEnd (head :: tail) = (.close, after) :=
        step_of_decided (Prod.ext closes.1 rfl) (by simp) atEnd
      rw [scan_of_decided scanner stepEq (by simp)]
      simp [advance, guarded, closes.2]
  | case4 lexer head tail taken after decided =>
      rename_i stays ih
      subst same
      have stepEq : scanner.lexer.step atEnd (head :: tail) = (taken, after) :=
        step_of_decided rfl decided atEnd
      obtain ⟨nothing, lexerEq, digitsEq, gatheredEq, openedEq, stillProper,
        stillGuarded⟩ :=
        advance_inGuard ((head :: tail).take taken.consumed) stepEq decided
          proper guarded stays
      rw [scan_of_decided scanner stepEq decided, nothing, List.nil_append,
        ih lexerEq stillProper stillGuarded, digitsEq, gatheredEq, openedEq,
        Option.map_map]
      congr 1
      funext content
      simp

private theorem advance_openGuard {digits : Text} {count : Nat} (behind : Text)
    (inside : Lexer) (counts : count = guardMarker.length + digits.length) :
    ({} : Scanner).advance (.openGuard count) inside
        ((guardMarker ++ (digits ++ behind)).take count) =
      ({ lexer := inside, digits := digits, openedAt := 1 }, []) := by
  have piece : (guardMarker ++ (digits ++ behind)).take count = guardMarker ++
      digits := by
    rw [counts, ← List.append_assoc, ← List.length_append, List.take_left]
  rw [piece]
  simp [advance, textSegment, guardMarker]

private theorem head?_scan_of_text {head : Char} {tail : Text} {taken : Step}
    {after : Lexer} {guard : Guard} {line : Nat}
    (stepEq : ({} : Lexer).step atEnd (head :: tail) = (taken, after))
    (decided : taken ≠ .needMore)
    (noOpening : ∀ count, taken ≠ .openGuard count) :
    (atomsOf (({} : Scanner).scan atEnd (head :: tail)).2).head? ≠
      some (.guard guard line) := by
  have progress :=
    ({} : Lexer).step_eq_needMore_or_consumed_pos atEnd (head :: tail)
  rw [stepEq] at progress
  obtain ⟨count, countEq⟩ : ∃ count, taken.consumed = count + 1 :=
    Nat.exists_eq_add_of_lt (progress.resolve_left decided)
      |>.imp fun _ same => by simpa using same
  have noClosing : ¬(taken = .close ∧ ({} : Scanner).lexer.guarded = true ∧
      after.depth = 0) := by
    simp
  have outside := guarded_of_gathers (Lexer.outcome_of_step stepEq decided)
    noOpening noClosing
  obtain ⟨nothing, lexerEq, -, gatheredEq⟩ :=
    advance_gathers ((head :: tail).take taken.consumed) noOpening noClosing
      decided
  rw [scan_of_decided ({} : Scanner) stepEq decided, nothing, List.nil_append]
  generalize (({} : Scanner).advance taken after
    ((head :: tail).take taken.consumed)).1 = moved
    at lexerEq gatheredEq
  have gathered : moved =
      ({ moved with gathered := [] } : Scanner).withEarlier
        ((head :: tail).take taken.consumed) := by
    cases moved with
    | mk lexer ahead collected digits line openedAt =>
        rw [List.append_nil] at gatheredEq
        simp [withEarlier, ← gatheredEq]
  rw [gathered, (scan_withEarlier atEnd _ _ _ (by rw [lexerEq, outside])).2,
    countEq]
  simp

/-- The scanner begins with the guard that a look at the start of the text
finds. -/
theorem head?_scan_iff (atEnd : Bool) (text : Text) (guard : Guard)
    (line : Nat) :
    (atomsOf (({} : Scanner).scan atEnd text).2).head? =
      some (.guard guard line) ↔
      line = 1 ∧ ∃ rest, Guard.scan text = .complete guard rest := by
  have noGuard (other : ∀ count inside,
      ({} : Lexer).step false text ≠ (.openGuard count, inside)) :
      ¬(line = 1 ∧ ∃ rest, Guard.scan text = .complete guard rest) := by
    rintro ⟨-, rest, found⟩
    obtain ⟨count, inside, opened, -, -⟩ := Guard.step_of_scan found
    exact other count inside opened
  cases text with
  | nil =>
      have waits := noGuard (by simp [Lexer.step])
      rw [scan_nil]
      simpa [release, withAhead, textSegment] using waits
  | cons head tail =>
      obtain ⟨⟨taken, after⟩, stepEq⟩ : ∃ result,
        ({} : Lexer).step atEnd (head :: tail) = result :=
        ⟨_, rfl⟩
      have sameStep (count : Nat) (inside : Lexer)
          (opened : ({} : Lexer).step false (head :: tail) =
              (.openGuard count, inside)) :
          taken = .openGuard count := by
        have stands := step_of_decided opened (by simp) atEnd
        rw [stepEq] at stands
        exact congrArg Prod.fst stands
      by_cases opens : ∃ count, taken = .openGuard count
      · obtain ⟨count, rfl⟩ := opens
        obtain ⟨-, rfl, digits, behind, split, nonempty, allDigits, counts⟩ :=
          (Lexer.outcome_of_step stepEq (by simp)).openGuard_spec
        have dropEq : (head :: tail).drop count = behind := by
          rw [split, counts, ← List.append_assoc, ← List.length_append,
            List.drop_left]
        have advanced := advance_openGuard behind ({} : Lexer).enterGuard counts
        rw [← split] at advanced
        rw [← head?_atomsOf (text_nil_not_mem_scan atEnd _ _),
          scan_of_decided ({} : Scanner) stepEq (by simp), Step.consumed,
          advanced, dropEq, List.nil_append,
          head?_scan_inGuard atEnd _ behind rfl (fun _ => Nat.one_pos) rfl,
          split, Guard.scan_digits behind nonempty allDigits]
        change ((Lexer.within 1 .code).guardContent? behind).map _ = _ ↔ _
        cases (Lexer.within 1 .code).guardContent? behind with
        | none => simp
        | some content => simp [and_comm, eq_comm]
      · have others := noGuard fun count inside opened =>
          opens ⟨count, sameStep count inside opened⟩
        refine iff_of_false ?_ others
        by_cases waits : taken = .needMore
        · subst waits
          have undecided : (({} : Lexer).step atEnd (head :: tail)).1 =
            .needMore := by rw [stepEq]
          rw [scan_of_needMore ({} : Scanner) undecided]
          simp [release, withAhead, textSegment]
        · exact head?_scan_of_text stepEq waits fun count same =>
            opens ⟨count, same⟩

theorem feedAll_start (chunks : List Text) :
    (({} : Scanner).feedAll chunks).1 =
      (({} : Scanner).scan false chunks.flatten).1 ∧
      atomsOf (({} : Scanner).feedAll chunks).2 =
        atomsOf (({} : Scanner).scan false chunks.flatten).2 := by
  have fresh : ({} : Scanner).scan false [] = ({}, []) := by
    rw [scan_nil]
    rfl
  obtain ⟨state, atoms⟩ := feedAll_scan [] chunks
  rw [fresh] at state atoms
  exact ⟨state, atoms.symm⟩

theorem atomsOf_segmentsIn (chunks : List Text) :
    atomsOf (segmentsIn chunks) = atomsOf (segmentsOf chunks.flatten) := by
  obtain ⟨state, atoms⟩ := feedAll_start chunks
  have whole := (finish_withMore ({} : Scanner) chunks.flatten []).2
  have fed : ({} : Scanner).feed chunks.flatten =
      ({} : Scanner).scan false chunks.flatten := rfl
  have nothingMore : ∀ scanner : Scanner, scanner.withMore [] = scanner := by
    intro scanner
    simp [withMore]
  rw [List.append_nil, fed, nothingMore] at whole
  rw [segmentsIn, atomsOf_append, atoms, state, segmentsOf, whole]

private theorem head?_openGuard (scanner : Scanner) (guard : Guard)
    (line : Nat) :
    (atomsOf scanner.openGuard).head? ≠ some (.guard guard line) := by
  unfold openGuard
  split <;> simp [Segment.atoms, guardMarker]

/-- The first segment does not depend on the chunks, nor on what the end of the
stream releases. -/
theorem head?_chunks_iff (chunks : List Text) (guard : Guard) (line : Nat) :
    ((({} : Scanner).feedAll chunks).2.head? = some (.guard guard line) ↔
        line = 1 ∧ ∃ rest, Guard.scan chunks.flatten = .complete guard rest) ∧
      ((segmentsIn chunks).head? = some (.guard guard line) ↔
        line = 1 ∧
          ∃ rest, Guard.scan chunks.flatten = .complete guard rest) := by
  have visible := text_nil_not_mem_feedAll ({} : Scanner) chunks
  have visibleAll : .text [] ∉ segmentsIn chunks := by
    rw [segmentsIn, List.mem_append, not_or]
    exact ⟨visible, text_nil_not_mem_finish _⟩
  constructor
  · rw [head?_atomsOf visible, (feedAll_start chunks).2]
    exact head?_scan_iff false chunks.flatten guard line
  · rw [head?_atomsOf visibleAll, atomsOf_segmentsIn, segmentsOf_eq,
      atomsOf_append, ← head?_scan_iff true chunks.flatten guard line,
      List.head?_append, Option.or_eq_some_iff]
    have noGuard :=
      head?_openGuard (({} : Scanner).scan true chunks.flatten).1 guard line
    simp [noGuard]

end Scanner

/-- A guard begins a text exactly if a marker, all the digits behind it, a
content of the grammar and a closing marker stand there; and the scanner gives
this guard first, whatever the chunks that bring the text. -/
theorem scan_iff_begins (text : Text) :
    (∀ guard rest, Guard.scan text = .complete guard rest ↔
      Guard.Begins guard text rest) ∧
      (Guard.scan text = .notGuard ↔ Guard.NoMarker text) ∧
      (Guard.scan text = .incomplete ↔
        ¬Guard.NoMarker text ∧ ¬∃ guard rest, Guard.Begins guard text rest) ∧
      ∀ (chunks : List Text) (guard : Guard) (line : Nat),
        ((({} : Scanner).feedAll chunks).2.head? = some (.guard guard line) ↔
          line = 1 ∧ ∃ rest, Guard.scan chunks.flatten = .complete guard rest) ∧
        ((Scanner.segmentsIn chunks).head? = some (.guard guard line) ↔
          line = 1 ∧
            ∃ rest, Guard.scan chunks.flatten = .complete guard rest) := by
  have complete (guard : Guard) (rest : Text) :
      Guard.scan text = .complete guard rest ↔ Guard.Begins guard text rest :=
    Guard.scan_eq_complete_iff
  have notGuard : Guard.scan text = .notGuard ↔ Guard.NoMarker text :=
    Guard.scan_eq_notGuard_iff
  refine ⟨complete, notGuard, ?_, Scanner.head?_chunks_iff⟩
  simp only [← complete, ← notGuard]
  cases Guard.scan text with
  | notGuard => simp
  | incomplete => simp
  | complete guard rest => simp

end SqlDump
