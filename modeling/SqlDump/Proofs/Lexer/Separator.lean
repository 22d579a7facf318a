import SqlDump.Proofs.Lexer.Waiting

/-!
# Text in front of a terminator

No step that begins in front of a terminator reads it together with other
characters, and none waits for what stands behind it.  So how the text in front
of a terminator is lexed does not depend on what follows.
-/

namespace SqlDump

namespace Lexer

/-- Neither a digit nor a character that a step reads behind another one. -/
structure Separator (separator : Char) : Prop where
  noMark : separator ∉ ['-', '*', '/', '!']
  noDigit : separator.isDigit = false

theorem separator_semicolon : Separator ';' :=
  ⟨by decide, rfl⟩

variable {lexer after : Lexer} {text : Text} {step : Step} {separator : Char}

theorem Separator.not_mem_takeWhile (separates : Separator separator) :
    separator ∉ text.takeWhile Char.isDigit := by
  intro member
  have digit := List.all_eq_true.mp List.all_takeWhile _ member
  rw [separates.noDigit] at digit
  exact Bool.false_ne_true digit

private theorem not_waits_separator (separates : Separator separator)
    (nonempty : text ≠ []) :
    ¬Waits lexer (text ++ [separator]) := by
  intro waits
  generalize inputEq : text ++ [separator] = input at waits
  have last : input.getLast? = some separator := by
    rw [← inputEq, List.getLast?_concat]
  have several : 2 ≤ input.length := by
    have positive := List.length_pos_iff.mpr nonempty
    rw [← inputEq, List.length_append, List.length_singleton]
    omega
  have noMark := separates.noMark
  simp only [List.mem_cons, List.not_mem_nil, or_false, not_or] at noMark
  obtain ⟨noDash, noStar, noSlash, noMark⟩ := noMark
  cases waits with
  | star inside => simp at several
  | slash code => simp at several
  | opening top => exact noStar (by simpa using last.symm)
  | marker top digits allDigits =>
      have member : separator ∈ '/' :: '*' :: '!' :: digits :=
        List.mem_of_getLast? last
      simp only [List.mem_cons, noSlash, noStar, noMark, false_or] at member
      exact separates.not_mem_takeWhile (allDigits ▸ member)
  | dash code => simp at several
  | dashes code => exact noDash (by simpa using last.symm)

private theorem consumed_le_of_separator (separates : Separator separator)
    (nonempty : text ≠ [])
    (outcome : Outcome lexer (text ++ [separator]) step after) :
    step.consumed ≤ text.length := by
  generalize inputEq : text ++ [separator] = input at outcome
  have positive := List.length_pos_iff.mpr nonempty
  have here : input[text.length]? = some separator := by
    rw [← inputEq, List.getElem?_append_right (Nat.le_refl _), Nat.sub_self]
    rfl
  have ends : input.length = text.length + 1 := by
    rw [← inputEq, List.length_append, List.length_singleton]
  have noMark := separates.noMark
  simp only [List.mem_cons, List.not_mem_nil, or_false, not_or] at noMark
  obtain ⟨noDash, noStar, noSlash, noMark⟩ := noMark
  apply Nat.le_of_not_lt
  intro beyond
  -- A step beyond the text has taken the separator, and no step of several
  -- characters does.
  cases outcome with
  | character head tail =>
      simp only [Step.consumed] at beyond
      omega
  | dashes code tail =>
      simp only [Step.consumed] at beyond
      have one : text.length = 1 := by omega
      exact noDash (by simpa [one] using here.symm)
  | marker top tail =>
      simp only [Step.consumed] at beyond
      obtain one | two : text.length = 1 ∨ text.length = 2 := by omega
      · exact noStar (by simpa [one] using here.symm)
      · exact noMark (by simpa [two] using here.symm)
  | openGuard top digits tail nonempty allDigits =>
      simp only [Step.consumed] at beyond
      have front : (guardMarker ++ (digits ++ tail)).take
          (guardMarker.length + digits.length) =
          guardMarker ++ digits := by
        rw [← List.append_assoc]
        exact List.take_left' (List.length_append ..)
      have member : separator ∈ guardMarker ++ digits := by
        rw [← front]
        exact List.mem_of_getElem?
          (by rw [List.getElem?_take_of_lt beyond]; exact here)
      rcases List.mem_append.mp member with marker | digit
      · simp [guardMarker, noSlash, noStar, noMark] at marker
      · exact separates.not_mem_takeWhile (allDigits ▸ digit)
  | openPlain code tail =>
      simp only [Step.consumed] at beyond
      have one : text.length = 1 := by omega
      exact noStar (by simpa [one] using here.symm)
  | close inside tail =>
      simp only [Step.consumed] at beyond
      have one : text.length = 1 := by omega
      exact noSlash (by simpa [one] using here.symm)

/-- In front of a separator a step is decided, and it ends in front of the
separator. -/
theorem step_before_separator (separates : Separator separator) (lexer : Lexer)
    {text : Text} (nonempty : text ≠ []) :
    ∃ step after, 0 < step.consumed ∧ step.consumed ≤ text.length ∧
      ∀ rest, lexer.step true (text ++ separator :: rest) = (step, after) := by
  have decided : (lexer.step false (text ++ [separator])).1 ≠ .needMore := by
    intro undecided
    have more : text ++ [separator] ≠ [] :=
      List.append_ne_nil_of_left_ne_nil nonempty _
    exact not_waits_separator separates nonempty
      (waits_of_needMore more undecided)
  have progress := (lexer.step_eq_needMore_or_consumed_pos false _).resolve_left
    decided
  refine ⟨_, (lexer.step false (text ++ [separator])).2, progress,
    consumed_le_of_separator separates nonempty (outcome_step decided),
      fun rest => ?_⟩
  have same := step_append true rest decided
  rwa [List.append_assoc, List.singleton_append] at same

theorem separator_induction (separates : Separator separator)
    {motive : Lexer → Text → Prop} (nil : ∀ lexer, motive lexer [])
    (step : ∀ lexer head tail (step : Step) after,
      0 < step.consumed → step.consumed ≤ (head :: tail).length →
      (∀ rest,
      lexer.step true (head :: tail ++ separator :: rest) = (step, after)) →
      motive after ((head :: tail).drop step.consumed) →
      motive lexer (head :: tail)) (lexer : Lexer) (text : Text) :
    motive lexer text := by
  induction lexer, text using Text.drop_induction with
  | nil lexer => exact nil lexer
  | cons lexer head tail ih =>
      obtain ⟨taken, after, progress, fits, stepEq⟩ :=
        step_before_separator separates lexer (List.cons_ne_nil head tail)
      exact step lexer head tail taken after progress fits stepEq
        (ih after _ progress)

private theorem places_before_semicolon (lexer : Lexer)
    (text first second : Text) :
    (lexer.places (text ++ ';' :: first)).take text.length =
      (lexer.places (text ++ ';' :: second)).take text.length := by
  induction lexer, text using separator_induction separator_semicolon with
  | nil lexer => rfl
  | step lexer head tail step after progress fits stepEq ih =>
      rw [List.length_drop] at ih
      rw [places_append_of_step (stepEq first) fits,
        places_append_of_step (stepEq second) fits, List.take_append,
        List.take_append, List.length_replicate, ih]

theorem inCodeAt_before_separator (separates : Separator separator)
    (lexer : Lexer) (text first second : Text) {count : Nat}
    (within : count ≤ text.length) :
    lexer.inCodeAt (text ++ separator :: first) count =
      lexer.inCodeAt (text ++ separator :: second) count := by
  induction lexer, text using separator_induction separates
    generalizing count with
  | nil lexer =>
      obtain rfl : count = 0 := Nat.le_zero.mp within
      rw [inCodeAt_zero, inCodeAt_zero]
  | step lexer head tail step after progress fits stepEq ih =>
      cases count with
      | zero => rw [inCodeAt_zero, inCodeAt_zero]
      | succ count =>
          rw [inCodeAt_append_of_step (stepEq first) fits,
            inCodeAt_append_of_step (stepEq second) fits]
          split
          · apply ih
            rw [List.length_drop]
            omega
          · rfl

theorem inCodeAt_before_semicolon (lexer : Lexer) (text first second : Text)
    {count : Nat} (within : count ≤ text.length) :
    lexer.inCodeAt (text ++ ';' :: first) count =
      lexer.inCodeAt (text ++ ';' :: second) count :=
  inCodeAt_before_separator separator_semicolon lexer text first second within

theorem triviaLength_of_step {head : Char} {tail more : Text}
    (stepEq : lexer.step true (head :: tail ++ more) = (step, after))
    (fits : step.consumed ≤ (head :: tail).length) :
    lexer.triviaLength (head :: tail ++ more) =
      if lexer.atTopLevel && !isAsciiBlank head &&
      !beginsComment (step, after) then 0
      else step.consumed + after.triviaLength
        ((head :: tail).drop step.consumed ++ more) := by
  rw [← List.drop_append_of_le_length fits]
  rw [List.cons_append] at stepEq ⊢
  rw [triviaLength_cons, taken, next, stepEq]

/-- The first token of a text with code in front of a separator stands in front
of it, or is the separator. -/
theorem triviaLength_before_separator (separates : Separator separator)
    (notBlank : isAsciiBlank separator = false) (plain : separator ∉ openers)
    (lexer : Lexer) (text first second : Text)
    (inCode : lexer.inCodeAt (text ++ separator :: first) text.length = true) :
    lexer.triviaLength (text ++ separator :: first) =
        lexer.triviaLength (text ++ separator :: second) ∧
      lexer.triviaLength (text ++ separator :: first) ≤ text.length := by
  induction lexer, text using separator_induction separates with
  | nil lexer =>
      have top : lexer.atTopLevel = true := by simpa using inCode
      have none (rest : Text) : lexer.triviaLength ([] ++ separator :: rest) =
          0 :=
        triviaLength_of_plain rest top plain notBlank
      rw [none, none]
      exact ⟨rfl, Nat.le_refl _⟩
  | step lexer head tail step after progress fits stepEq ih =>
      rw [triviaLength_of_step (stepEq first) fits,
        triviaLength_of_step (stepEq second) fits]
      split
      · exact ⟨rfl, Nat.zero_le _⟩
      · rw [List.length_cons] at fits
        rw [List.length_cons, inCodeAt_append_of_step (stepEq first) fits,
          if_pos fits] at inCode
        rw [List.length_drop, List.length_cons] at ih
        obtain ⟨same, within⟩ := ih inCode
        rw [same, List.length_cons]
        rw [same] at within
        exact ⟨rfl, by omega⟩

/-- In front of `rest` the text is made of blanks and line comments. -/
def IdleFrom (lexer : Lexer) (text rest : Text) : Prop :=
  ∀ (index : Nat) (character : Char) (place : Place), text[index]? =
    some character →
    (lexer.places (text ++ rest))[index]? = some place →
    isBlank character = true ∨ place.lexicalClass = .lineComment

/-- Code or a line comment, outside every other comment. -/
def Outside (lexer : Lexer) : Prop :=
  lexer.depth = 0 ∧ (lexer.lex = .code ∨ lexer.lex = .lineComment)

theorem outside_start : ({} : Lexer).Outside :=
  ⟨rfl, .inl rfl⟩

theorem IdleFrom.of_append {first second rest : Text}
    (idle : lexer.IdleFrom (first ++ second) rest) :
    lexer.IdleFrom first (second ++ rest) := by
  intro index character place found placed
  have within : index < first.length := (List.getElem?_eq_some_iff.mp found).1
  apply idle index character place
  · rwa [List.getElem?_append_left within]
  · rwa [List.append_assoc]

theorem IdleFrom.congr_behind {first : Text} (second : Text)
    (idle : lexer.IdleFrom text (';' :: first)) :
    lexer.IdleFrom text (';' :: second) := by
  intro index character place found placed
  have within : index < text.length := (List.getElem?_eq_some_iff.mp found).1
  have same :=
    congrArg (·[index]?) (lexer.places_before_semicolon text first second)
  simp only [List.getElem?_take_of_lt within] at same
  exact idle index character place found (same.trans placed)

private theorem not_isBlank_of_isQuote {character : Char}
    (quote : isQuote character = true) :
    isBlank character = false := by
  simp only [isQuote, Bool.or_eq_true, beq_iff_eq] at quote
  rcases quote with (rfl | rfl) | rfl <;> decide

/-- A blank, or a step that reads a line comment, does not enter a literal or
another comment. -/
theorem Outcome.outside {head : Char} {tail : Text} {step : Step}
    (outcome : Outcome lexer (head :: tail) step after)
    (outside : lexer.Outside)
    (idle : isBlank head = true ∨
      (⟨lexer.lexicalClass,
      after.lexicalClass⟩ : Place).lexicalClass = .lineComment) :
    after.Outside := by
  obtain ⟨depth, lex⟩ := outside
  have class_of_code (code : lexer.lex = .code) : lexer.lexicalClass = .code :=
    lexicalClass_eq_code_iff.mpr (by simp [atTopLevel, depth, code])
  generalize inputEq : head :: tail = input at outcome
  cases outcome with
  | character first rest =>
      obtain ⟨rfl, rfl⟩ := List.cons.inj inputEq
      refine ⟨depth, ?_⟩
      change lexer.lexBehind head = _ ∨ lexer.lexBehind head = _
      rcases lex with code | comment
      · have inCode : lexer.inCode = true := by simp [Lexer.inCode, code, depth]
        by_cases quote : isQuote head = true
        · have literal : (lexer.behind head).lexicalClass = .literal := by
            simp [lexicalClass, behind, lexBehind, code, inCode, quote, depth]
          rw [not_isBlank_of_isQuote quote, class_of_code code, literal] at idle
          simp [Place.lexicalClass] at idle
        · by_cases hash : head = '#'
          · have noQuote : isQuote '#' = false := rfl
            simp [lexBehind, code, inCode, hash, noQuote]
          · simp [lexBehind, code, inCode, quote, hash]
      · by_cases lineEnd : head = '\n'
        · simp [lexBehind, comment, lineEnd]
        · simp [lexBehind, comment, lineEnd]
  | dashes code tail => exact ⟨depth, .inr rfl⟩
  | marker top tail => exact ⟨depth, lex⟩
  | openGuard top digits tail nonempty allDigits =>
      simp only [guardMarker, List.cons_append, List.cons.injEq] at inputEq
      rw [inputEq.1, lexicalClass_eq_code_iff.mpr top] at idle
      simp [Place.lexicalClass, lexicalClass, enterGuard, isBlank] at idle
  | openPlain code tail =>
      simp only [List.cons.injEq] at inputEq
      rw [inputEq.1, class_of_code code] at idle
      cases guarded : lexer.guarded with
      | true =>
          simp [Place.lexicalClass, lexicalClass, openOne, guarded,
            isBlank] at idle
      | false =>
          simp [Place.lexicalClass, lexicalClass, openOne, guarded,
            isBlank] at idle
  | close inside tail => exact absurd depth (Nat.ne_of_gt inside)

/-- Behind blanks and line comments a semicolon stands in code or in a line
comment. -/
theorem idle_ends (lexer : Lexer) (text rest : Text) (outside : lexer.Outside)
    (idle : lexer.IdleFrom text (';' :: rest)) :
    lexer.inCodeAt (text ++ ';' :: rest) text.length = true ∨
      (lexer.places (text ++ ';' :: rest))[text.length]? =
        some ⟨.lineComment, .lineComment⟩ := by
  induction lexer, text using separator_induction separator_semicolon with
  | nil lexer =>
      obtain ⟨depth, code | comment⟩ := outside
      · exact .inl (by simp [inCodeAt_zero, atTopLevel, depth, code])
      · have stepEq : lexer.step true (';' :: rest) = (.skip 1, lexer) := by
          simp [step, stepPlain, inCode, comment, depth]
        have comments : lexer.lexicalClass = .lineComment := by
          simp [lexicalClass, depth, comment]
        right
        rw [List.nil_append, places, next, taken, stepEq, comments]
        rfl
  | step lexer head tail step after progress fits stepEq ih =>
      have outcome :=
        outcome_next lexer (List.cons_ne_nil head (tail ++ ';' :: rest))
      rw [next, ← List.cons_append, stepEq] at outcome
      have placesEq := places_append_of_step (stepEq rest) fits
      have here : isBlank head = true ∨
          (⟨lexer.lexicalClass, after.lexicalClass⟩ : Place).lexicalClass =
            .lineComment := by
        apply idle 0 head
        · rfl
        · rw [placesEq,
            List.getElem?_append_left (by rwa [List.length_replicate]),
            List.getElem?_replicate_of_lt progress]
      have idleBehind : after.IdleFrom ((head :: tail).drop step.consumed)
          (';' :: rest) := by
        intro index character place found placed
        apply idle (step.consumed + index) character place
        · rwa [List.getElem?_drop] at found
        · rwa [placesEq,
            List.getElem?_append_right (by rw [List.length_replicate]; omega),
            List.length_replicate, Nat.add_sub_cancel_left]
      have later := ih (outcome.outside outside here) idleBehind
      rw [List.length_drop, List.length_cons] at later
      rw [List.length_cons] at fits ⊢
      rwa [placesEq,
        List.getElem?_append_right (by rwa [List.length_replicate]),
        List.length_replicate, inCodeAt_append_of_step (stepEq rest) fits,
        if_pos fits]

end Lexer

end SqlDump
