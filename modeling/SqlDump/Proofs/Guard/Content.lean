import SqlDump.Proofs.Guard.Grammar
import SqlDump.Proofs.Guard.Reading

/-!
# The content of a guard

What the reader of an open guard takes is a text of the grammar.  So a guard
begins a text exactly if its digits and a content of the grammar stand between a
marker and a closing marker.
-/

namespace SqlDump

namespace Lexer

variable {lexer after : Lexer} {step : Step} {text inner rest later : Text}

/-- What an open guard contains from the place on that a state of the lexer
describes. -/
def Holds : Nat → Lex → Text → Prop
  | 1, .code, inner => GuardContent inner
  | 1, .quoted quote, inner =>
      isQuote quote = true ∧ ∃ body tail, inner = body ++ tail ∧
      Literal quote body ∧
        GuardContent tail
  | 1, .escaped quote, inner =>
      isQuote quote = true ∧ quote ≠ backtick ∧ ∃ character body tail,
        inner = character :: (body ++ tail) ∧ Literal quote body ∧
        GuardContent tail
  | 1, .lineComment, inner =>
      ∃ text tail, inner = text ++ tail ∧ LineText text ∧
        (tail = [] ∨ ∃ later, tail = '\n' :: later ∧ GuardContent later)
  | depth + 2, .code, inner =>
      ∃ comment tail, inner = comment ++ tail ∧ CommentText comment ∧
      Holds (depth + 1) .code tail
  | _, _, _ => False

/-- The states that the reader of an open guard goes through. -/
inductive Inside : Lexer → Prop where
  | code (depth : Nat) : Inside (within (depth + 1) .code)
  | lineComment : Inside (within 1 .lineComment)
  | quoted {quote : Char} (opens : isQuote quote = true) :
      Inside (within 1 (.quoted quote))
  | escaped {quote : Char} (opens : isQuote quote = true)
      (escapes : quote ≠ backtick) :
      Inside (within 1 (.escaped quote))

/-- A step that takes `piece` leads from one state of the reader to another, and
what the guard contains from there on extends to what it contains from here
on. -/
def Extends (lexer : Lexer) (piece later : Text) (after : Lexer) : Prop :=
  Inside after ∧ (Holds after.depth after.lex later →
    Holds lexer.depth lexer.lex (piece ++ later))

private theorem extends_quoted {quote head : Char} {tail : Text}
    (opens : isQuote quote = true)
    (stepEq : (within 1 (.quoted quote)).step false (head :: tail) =
        (step, after)) (later : Text) :
    Extends (within 1 (.quoted quote)) ((head :: tail).take step.consumed)
      later after := by
  by_cases close : head = quote
  · subst close
    obtain ⟨rfl, rfl⟩ : Step.skip 1 = step ∧ within 1 .code = after := by
      simpa [Lexer.step, within] using stepEq
    refine ⟨.code 0,
      fun content => ⟨opens, [head], later, rfl, .close, content⟩⟩
  · by_cases escape : head = backslash ∧ quote ≠ backtick
    · obtain ⟨rfl, rfl⟩ : Step.skip 1 = step ∧
      within 1 (.escaped quote) = after := by
        simpa [Lexer.step, within, escape, ne_backslash_of_isQuote opens]
          using stepEq
      refine ⟨.escaped opens escape.2, ?_⟩
      rintro ⟨-, -, character, body, behind, rfl, literal, content⟩
      rw [escape.1]
      exact ⟨opens, _, behind, rfl, .escape escape.2 character literal, content⟩
    · obtain ⟨rfl, rfl⟩ : Step.skip 1 = step ∧
        within 1 (.quoted quote) = after := by
        simpa [Lexer.step, within, escape, close] using stepEq
      refine ⟨.quoted opens, ?_⟩
      rintro ⟨-, body, behind, rfl, literal, content⟩
      have noEscape : head = backslash → quote = backtick := fun same =>
        Decidable.by_contra fun other => escape ⟨same, other⟩
      exact ⟨opens, _, behind, rfl, .character close noEscape literal, content⟩

private theorem extends_escaped {quote head : Char} {tail : Text}
    (opens : isQuote quote = true) (escapes : quote ≠ backtick)
    (stepEq : (within 1 (.escaped quote)).step false (head :: tail) =
        (step, after)) (later : Text) :
    Extends (within 1 (.escaped quote)) ((head :: tail).take step.consumed)
      later after := by
  obtain ⟨rfl, rfl⟩ : Step.skip 1 = step ∧
    within 1 (.quoted quote) = after := by
    simpa [Lexer.step, within] using stepEq
  refine ⟨.quoted opens, ?_⟩
  rintro ⟨-, body, behind, rfl, literal, content⟩
  exact ⟨opens, escapes, head, body, behind, rfl, literal, content⟩

private theorem extends_line {head next : Char} {tail : Text}
    (stepEq : (within 1 .lineComment).step false (head :: next :: tail) =
        (step, after)) (stays : ¬(step = .close ∧ after.depth = 0))
    (fits : later <+: (head :: next :: tail).drop step.consumed) :
    Extends (within 1 .lineComment) ((head :: next :: tail).take step.consumed)
      later after := by
  by_cases closes : closingMarker <+: head :: next :: tail
  · obtain ⟨behind, split⟩ := closes
    rw [← split, step_closing (.inr rfl) Nat.one_pos false] at stepEq
    obtain ⟨rfl, rfl⟩ := Prod.mk.inj stepEq
    exact absurd ⟨rfl, rfl⟩ stays
  · by_cases lineEnd : head = '\n'
    · subst lineEnd
      obtain ⟨rfl, rfl⟩ : Step.skip 1 = step ∧ within 1 .code = after := by
        simpa [Lexer.step, stepPlain, within, inCode] using stepEq
      refine ⟨.code 0,
        fun content => ⟨[], _, rfl, lineText_nil, .inr ⟨_, rfl, content⟩⟩⟩
    · rw [step_inLine lineEnd closes] at stepEq
      obtain ⟨rfl, rfl⟩ := Prod.mk.inj stepEq
      refine ⟨.lineComment, ?_⟩
      rintro ⟨text, behind, rfl, line, ends⟩
      refine ⟨head :: text, behind, rfl, line.cons lineEnd ?_, ends⟩
      intro front
      apply closes
      exact front.trans
        (List.cons_prefix_cons.mpr ⟨rfl, (List.prefix_append _ _).trans fits⟩)

private theorem extends_nested {depth : Nat} {head next : Char} {tail : Text}
    (stepEq : (within (depth + 2) .code).step false (head :: next :: tail) =
        (step, after))
    (fits : later <+: (head :: next :: tail).drop step.consumed) :
    Extends (within (depth + 2) .code)
      ((head :: next :: tail).take step.consumed) later after := by
  by_cases closes : closingMarker <+: head :: next :: tail
  · obtain ⟨behind, split⟩ := closes
    rw [← split, step_closing (.inl rfl) (Nat.succ_pos _) false] at stepEq
    obtain ⟨rfl, rfl⟩ := Prod.mk.inj stepEq
    rw [← split]
    exact ⟨.code depth,
      fun content => ⟨closingMarker, later, rfl, .close, content⟩⟩
  · by_cases opens : commentMarker <+: head :: next :: tail
    · obtain ⟨behind, split⟩ := opens
      rw [← split, step_opening rfl (Nat.succ_pos _) false] at stepEq
      obtain ⟨rfl, rfl⟩ := Prod.mk.inj stepEq
      rw [← split]
      refine ⟨.code (depth + 2), ?_⟩
      rintro ⟨inner, _, rfl, nested, comment, rest, rfl, later, content⟩
      refine ⟨commentMarker ++ (inner ++ comment), rest, ?_,
        .nested nested later, content⟩
      simp [Step.consumed, commentMarker]
    · rw [step_inComment (inComment_within depth) false opens closes] at stepEq
      obtain ⟨rfl, rfl⟩ := Prod.mk.inj stepEq
      refine ⟨.code (depth + 1), ?_⟩
      rintro ⟨comment, rest, rfl, valid, content⟩
      have shorter : head :: comment <+: head :: next :: tail :=
        List.cons_prefix_cons.mpr ⟨rfl, (List.prefix_append _ _).trans fits⟩
      have character : CommentText (head :: comment) :=
        .character (fun front => opens (front.trans shorter))
          (fun front => closes (front.trans shorter)) valid
      exact ⟨head :: comment, rest, rfl, character, content⟩

theorem begins_of_prefix {start front behind : Text}
    (hash : start = ['#'] ∨ start = ['-', '-'])
    (begins : BeginsLineComment (start ++ behind)) (fits : front <+: behind)
    (nonempty : front ≠ []) : BeginsLineComment (start ++ front) := by
  rcases hash with rfl | rfl
  · exact .inl rfl
  · obtain ⟨more, rfl⟩ := fits
    rcases begins with hash | ⟨blank, tail, split, isBlank⟩
    · simp at hash
    · cases front with
      | nil => exact absurd rfl nonempty
      | cons head front =>
          simp only [List.cons_append, List.nil_append, List.cons.injEq,
            true_and] at split
          rw [split.1]
          exact .inr ⟨blank, front, rfl, isBlank⟩

theorem lineText_start {start text : Text}
    (hash : start = ['#'] ∨ start = ['-', '-']) (line : LineText text) :
    LineText (start ++ text) := by
  have noClosing (head : Char) (tail : Text) (noStar : head ≠ '*') :
      ¬closingMarker <+: head :: tail := by
    simp [closingMarker, noStar.symm]
  rcases hash with rfl | rfl
  · exact line.cons (by decide) (noClosing _ _ (by decide))
  · exact (line.cons (by decide) (noClosing _ _ (by decide))).cons (by decide)
      (noClosing _ _ (by decide))

theorem extends_lineStart (rest : Text) {start later : Text}
    (hash : start = ['#'] ∨ start = ['-', '-'])
    (begins : BeginsLineComment (start ++ (later ++ (closingMarker ++ rest)))) :
    Extends (within 1 .code) start later (within 1 .lineComment) := by
  refine ⟨.lineComment, ?_⟩
  rintro ⟨text, tail, rfl, line, rfl | ⟨inner, rfl, content⟩⟩
  · apply GuardContent.lastLine
    · rw [List.append_nil, List.append_assoc]
      refine begins_of_prefix hash begins ⟨rest, by simp⟩
        (by simp [closingMarker])
    · rw [List.append_nil]
      exact lineText_start hash line
  · have comment : BeginsLineComment (start ++ (text ++ '\n' :: inner)) :=
      begins_of_prefix hash begins (List.prefix_append _ _) (by simp)
    rw [← List.append_assoc] at comment ⊢
    exact .line comment (lineText_start hash line) content

private theorem extends_code {head second third : Char} {tail : Text}
    (stepEq : (within 1 .code).step false (head :: second :: third :: tail) =
        (step, after)) (stays : ¬(step = .close ∧ after.depth = 0))
    (split : (head :: second :: third :: tail).drop step.consumed =
        later ++ (closingMarker ++ rest)) :
    Extends (within 1 .code)
      ((head :: second :: third :: tail).take step.consumed) later
      after := by
  by_cases quote : isQuote head = true
  · rw [step_quote quote] at stepEq
    obtain ⟨rfl, rfl⟩ := Prod.mk.inj stepEq
    refine ⟨.quoted quote, ?_⟩
    rintro ⟨-, body, behind, rfl, literal, content⟩
    have found : GuardContent (head :: (body ++ behind)) :=
      .literal quote literal content
    exact found
  by_cases closes : closingMarker <+: head :: second :: third :: tail
  · obtain ⟨behind, same⟩ := closes
    rw [← same, step_closing (.inl rfl) Nat.one_pos false] at stepEq
    obtain ⟨rfl, rfl⟩ := Prod.mk.inj stepEq
    exact absurd ⟨rfl, rfl⟩ stays
  by_cases opens : commentMarker <+: head :: second :: third :: tail
  · obtain ⟨behind, same⟩ := opens
    rw [← same, step_opening rfl Nat.one_pos false] at stepEq
    obtain ⟨rfl, rfl⟩ := Prod.mk.inj stepEq
    rw [← same]
    refine ⟨.code 1, ?_⟩
    rintro ⟨comment, inner, rfl, valid, content⟩
    exact .comment valid content
  by_cases line : BeginsLineComment (head :: second :: third :: tail)
  · rcases line with hash | ⟨blank, behind, dashes, isBlank⟩
    · simp only [List.head?_cons, Option.some.injEq] at hash
      subst hash
      rw [step_hash] at stepEq
      obtain ⟨rfl, rfl⟩ := Prod.mk.inj stepEq
      exact extends_lineStart rest (.inl rfl) (.inl rfl)
    · rw [dashes] at stepEq split ⊢
      rw [step_dashes isBlank] at stepEq
      obtain ⟨rfl, rfl⟩ := Prod.mk.inj stepEq
      apply extends_lineStart rest (.inr rfl)
      rw [← split]
      exact .inr ⟨blank, behind, rfl, isBlank⟩
  · have noQuote : isQuote head = false := Bool.eq_false_iff.mpr quote
    rw [step_ordinary noQuote line opens closes] at stepEq
    obtain ⟨rfl, rfl⟩ := Prod.mk.inj stepEq
    have whole : head :: second :: third :: tail =
        head :: (later ++ closingMarker) ++ rest := by
      rw [List.cons_append, List.append_assoc, ← split]
      rfl
    have shorter : head :: (later ++ closingMarker) <+: head :: second ::
        third :: tail :=
      ⟨rest, whole.symm⟩
    refine ⟨.code 0, fun content => ?_⟩
    apply GuardContent.ordinary noQuote _ (fun front =>
      opens (front.trans shorter))
      (fun front => closes (front.trans shorter)) content
    intro begins
    apply line
    rw [whole]
    exact begins.append rest

/-- The closing marker of the guard stands behind every step that stays in the
guard. -/
theorem two_behind {head : Char} {tail : Text} {count : Nat}
    (positive : 0 < count)
    (split : (head :: tail).drop count = later ++ (closingMarker ++ rest)) :
    ∃ second third behind, tail = second :: third :: behind := by
  have lengths := congrArg List.length split
  simp only [List.length_drop, List.length_cons, List.length_append,
    closingMarker, List.length_nil] at lengths
  cases tail with
  | nil => simp at lengths; omega
  | cons second tail =>
      cases tail with
      | nil => simp at lengths; omega
      | cons third behind => exact ⟨second, third, behind, rfl⟩

private theorem extends_step (inside : Inside lexer) {head : Char} {tail : Text}
    (stepEq : lexer.step false (head :: tail) = (step, after))
    (decided : step ≠ .needMore) (stays : ¬(step = .close ∧ after.depth = 0))
    (split : (head :: tail).drop step.consumed =
        later ++ (closingMarker ++ rest)) :
    Extends lexer ((head :: tail).take step.consumed) later after := by
  have progress := lexer.step_eq_needMore_or_consumed_pos false (head :: tail)
  rw [stepEq] at progress
  obtain ⟨second, third, behind, rfl⟩ :=
    two_behind (progress.resolve_left decided) split
  have fits : later <+: (head :: second :: third :: behind).drop
      step.consumed :=
    ⟨_, split.symm⟩
  cases inside with
  | code depth =>
      cases depth with
      | zero => exact extends_code stepEq stays split
      | succ depth => exact extends_nested stepEq fits
  | lineComment => exact extends_line stepEq stays fits
  | quoted opens => exact extends_quoted opens stepEq later
  | escaped opens escapes => exact extends_escaped opens escapes stepEq later

theorem Inside.holds_nil (inside : Inside lexer)
    (stepEq : lexer.step false text = (.close, after))
    (outermost : after.depth = 0) : Holds lexer.depth lexer.lex [] := by
  obtain ⟨-, rfl, tail, rfl⟩ := (outcome_of_step stepEq (by simp)).close_spec
  cases inside with
  | code depth =>
      have last : depth = 0 := outermost
      subst last
      exact GuardContent.nil
  | lineComment => exact ⟨[], [], rfl, lineText_nil, .inl rfl⟩
  | quoted opens =>
      simp only [Lexer.step, within, closingMarker, List.cons_append] at stepEq
      split at stepEq
      · simp at stepEq
      · split at stepEq <;> simp at stepEq
  | escaped opens escapes => simp [Lexer.step, within, closingMarker] at stepEq

/-- What the reader of an open guard takes is a text of the grammar. -/
theorem guardContent?_sound (inside : Inside lexer)
    (found : lexer.guardContent? text = some (inner, rest)) :
    Holds lexer.depth lexer.lex inner := by
  fun_induction Lexer.guardContent? lexer text generalizing inner rest with
  | case1 => simp at found
  | case2 => simp at found
  | case3 lexer head tail taken after =>
      rename_i closes
      simp only [Option.some.injEq, Prod.mk.injEq] at found
      rw [← found.1]
      exact inside.holds_nil (Prod.ext closes.1 rfl) closes.2
  | case4 lexer head tail taken after decided =>
      rename_i stays ih
      simp only [Option.map_eq_some_iff, Prod.mk.injEq] at found
      obtain ⟨⟨later, behind⟩, laterFound, rfl, rfl⟩ := found
      obtain ⟨goesOn, holds⟩ :=
        extends_step inside rfl decided stays (guardContent?_spec laterFound).1
      exact holds (ih goesOn laterFound)

/-- The reader of an open guard stops at the marker that closes the guard. -/
theorem guardContent?_iff :
    (within 1 .code).guardContent? text = some (inner, rest) ↔
      text = inner ++ (closingMarker ++ rest) ∧ GuardContent inner := by
  constructor
  · intro found
    exact ⟨(guardContent?_spec found).1, guardContent?_sound (.code 0) found⟩
  · rintro ⟨rfl, content⟩
    exact guardContent?_complete content rest

end Lexer

namespace Guard

variable {guard : Guard} {text rest : Text}

/-- The text begins with the guard: its digits are all the digits behind the
marker, and its content ends in front of a closing marker. -/
structure Begins (guard : Guard) (text rest : Text) : Prop where
  split : text = guard.raw ++ rest
  nonempty : guard.digits ≠ []
  allDigits : ∀ digit ∈ guard.digits, digit.isDigit = true
  maximal : ∀ next ∈ guard.inner.head?, next.isDigit = false
  content : GuardContent guard.inner

/-- The marker of a guard is missing, or the character behind it is no digit. -/
def NoMarker (text : Text) : Prop :=
  ¬guardMarker <+: text ∨
    ∃ next tail, text = guardMarker ++ next :: tail ∧ next.isDigit = false

theorem scan_marker (behind : Text) :
    scan (guardMarker ++ behind) =
      if (behind.takeWhile Char.isDigit).length = behind.length then .incomplete
      else if behind.takeWhile Char.isDigit = [] then .notGuard
      else
        match (Lexer.within 1 .code).guardContent?
          (behind.dropWhile Char.isDigit) with
        | some (inner, rest) =>
            .complete ⟨behind.takeWhile Char.isDigit, inner⟩ rest
        | none => .incomplete := by
  have begins : Text.after? guardMarker (guardMarker ++ behind) = some behind :=
    Text.after?_eq_some_iff.mpr rfl
  have stepEq : ({} : Lexer).step false (guardMarker ++ behind) =
      ({} : Lexer).stepMarker false ('!' :: behind) := rfl
  rw [scan, begins, stepEq]
  dsimp only [Lexer.stepMarker]
  rw [if_pos rfl]
  by_cases waits : (behind.takeWhile Char.isDigit).length = behind.length
  · rw [if_pos waits, if_pos ⟨waits, rfl⟩]
  · rw [if_neg waits, if_neg fun both => waits both.1]
    by_cases noDigits : behind.takeWhile Char.isDigit = []
    · rw [if_pos noDigits, if_pos noDigits]
    · rw [if_neg noDigits, if_neg noDigits]
      have parts : behind.takeWhile Char.isDigit ++ behind.dropWhile
        Char.isDigit = behind :=
        List.takeWhile_append_dropWhile
      have whole : guardMarker ++ behind =
          (guardMarker ++ behind.takeWhile Char.isDigit) ++ behind.dropWhile
            Char.isDigit := by
        rw [List.append_assoc, parts]
      have count : 3 + (behind.takeWhile Char.isDigit).length =
          (guardMarker ++ behind.takeWhile Char.isDigit).length := by
        rw [List.length_append]
        rfl
      dsimp only
      rw [count, whole, List.drop_left, List.take_left, List.drop_left]
      rfl

theorem scan_digits {digits : Text} (behind : Text) (nonempty : digits ≠ [])
    (allDigits : (digits ++ behind).takeWhile Char.isDigit = digits) :
    scan (guardMarker ++ (digits ++ behind)) =
      match (Lexer.within 1 .code).guardContent? behind with
      | some (inner, rest) => .complete ⟨digits, inner⟩ rest
      | none => .incomplete := by
  have parts : (digits ++ behind).takeWhile Char.isDigit ++
      (digits ++ behind).dropWhile Char.isDigit = digits ++ behind :=
    List.takeWhile_append_dropWhile
  rw [allDigits] at parts
  rw [scan_marker, allDigits, List.append_cancel_left parts, if_neg nonempty]
  split
  · next all =>
      have last : behind = [] := by simpa using all
      subst last
      rw [Lexer.guardContent?]
  · rfl

theorem scan_of_noMarker (missing : ¬guardMarker <+: text) :
    scan text = .notGuard := by
  have none : Text.after? guardMarker text = none := by
    rw [Option.eq_none_iff_forall_ne_some]
    intro behind found
    exact missing ⟨behind, (Text.after?_eq_some_iff.mp found).symm⟩
  rw [scan, none]

private theorem takeWhile_isDigit {digits tail : Text}
    (allDigits : ∀ digit ∈ digits, digit.isDigit = true)
    (boundary : ∀ next ∈ tail.head?, next.isDigit = false) :
    (digits ++ tail).takeWhile Char.isDigit = digits ∧
      (digits ++ tail).dropWhile Char.isDigit = tail := by
  have stops : tail.takeWhile Char.isDigit = [] ∧
      tail.dropWhile Char.isDigit = tail := by
    cases tail with
    | nil => exact ⟨rfl, rfl⟩
    | cons next tail => simp [boundary next rfl]
  rw [List.takeWhile_append_of_pos allDigits,
    List.dropWhile_append_of_pos allDigits, stops.1, stops.2, List.append_nil]
  exact ⟨rfl, rfl⟩

private theorem isDigit_of_mem_takeWhile (text : Text) :
    ∀ digit ∈ text.takeWhile Char.isDigit, digit.isDigit = true := by
  intro digit member
  exact List.all_eq_true.mp List.all_takeWhile digit member

theorem begins_of_scan (found : scan text = .complete guard rest) :
    guard.Begins text rest := by
  by_cases marker : guardMarker <+: text
  · obtain ⟨behind, rfl⟩ := marker
    rw [scan_marker] at found
    split at found
    · simp at found
    · split at found
      · simp at found
      · next nonempty =>
          split at found
          · next inner later content =>
              simp only [Scan.complete.injEq] at found
              obtain ⟨rfl, rfl⟩ := found
              have parts :
                  behind.takeWhile Char.isDigit ++ behind.dropWhile
                    Char.isDigit = behind :=
                List.takeWhile_append_dropWhile
              obtain ⟨split, valid⟩ := Lexer.guardContent?_iff.mp content
              refine ⟨?_, nonempty, isDigit_of_mem_takeWhile behind, ?_, valid⟩
              · simp only [raw, List.append_assoc]
                rw [← split, parts]
              · intro next front
                have head := List.head?_dropWhile_not Char.isDigit behind
                have first : (behind.dropWhile Char.isDigit).head? =
                    some next := by
                  rw [split, List.head?_append, front]
                  rfl
                rwa [first] at head
          · simp at found
  · rw [scan_of_noMarker marker] at found
    simp at found

theorem Begins.scan_eq (begins : guard.Begins text rest) :
    scan text = .complete guard rest := by
  have boundary : ∀ next ∈ (guard.inner ++ (closingMarker ++ rest)).head?,
      next.isDigit = false := by
    intro next front
    cases inner : guard.inner with
    | nil =>
        rw [inner] at front
        obtain rfl : '*' = next := by simpa [closingMarker] using front
        rfl
    | cons head tail =>
        rw [inner] at front
        exact begins.maximal next (by rwa [inner])
  obtain ⟨digitsEq, behindEq⟩ := takeWhile_isDigit begins.allDigits boundary
  have split :
      text = guardMarker ++
        (guard.digits ++ (guard.inner ++ (closingMarker ++ rest))) := by
    rw [begins.split]
    simp [raw]
  rw [split, scan_marker, digitsEq, behindEq, if_neg, if_neg begins.nonempty,
    Lexer.guardContent?_iff.mpr ⟨rfl, begins.content⟩]
  simp [closingMarker]

theorem scan_eq_complete_iff : scan text = .complete guard rest ↔
    guard.Begins text rest :=
  ⟨begins_of_scan, Begins.scan_eq⟩

theorem scan_eq_notGuard_iff : scan text = .notGuard ↔ NoMarker text := by
  by_cases marker : guardMarker <+: text
  · obtain ⟨behind, rfl⟩ := marker
    rw [scan_marker]
    cases behind with
    | nil => simp [NoMarker]
    | cons next tail =>
        cases digit : next.isDigit with
        | true =>
            have waits : ¬NoMarker (guardMarker ++ next :: tail) := by
              simp [NoMarker, digit]
            have nonempty : (next :: tail).takeWhile Char.isDigit ≠ [] := by
              simp [digit]
            simp only [nonempty, waits, if_false, iff_false]
            intro none
            split at none
            · simp at none
            · split at none <;> simp at none
        | false => simp [NoMarker, digit]
  · simp [scan_of_noMarker marker, NoMarker, marker]

end Guard
end SqlDump
