import SqlDump.Proofs.Lexer.Place

/-!
# Text in front of a cut

A step waits only for texts that are code in front of a cut in code.  So the
places in front of such a cut do not depend on what follows, as long as the cut
stays in code.
-/

namespace SqlDump

namespace Lexer

variable {lexer after : Lexer} {text rest : Text}

/-- The texts that leave a step undecided. -/
inductive Waits (lexer : Lexer) : Text → Prop where
  | star (inside : 0 < lexer.depth) : Waits lexer ['*']
  | slash (code : lexer.lex = .code) : Waits lexer ['/']
  | opening (top : lexer.atTopLevel = true) : Waits lexer ['/', '*']
  | marker (top : lexer.atTopLevel = true) (digits : Text)
      (allDigits : digits.takeWhile Char.isDigit = digits) :
      Waits lexer ('/' :: '*' :: '!' :: digits)
  | dash (code : lexer.lex = .code) : Waits lexer ['-']
  | dashes (code : lexer.lex = .code) : Waits lexer ['-', '-']

theorem Waits.ne_nil (waits : Waits lexer text) : text ≠ [] := by
  cases waits <;> exact List.cons_ne_nil _ _

private theorem waits_of_stepMarker {rest : Text}
    (top : lexer.atTopLevel = true)
    (undecided : (lexer.stepMarker false rest).1 = .needMore) :
    Waits lexer ('/' :: '*' :: rest) := by
  unfold stepMarker at undecided
  split at undecided
  · exact .opening top
  · split at undecided
    · next mark =>
        subst mark
        dsimp only at undecided
        split at undecided
        · next allDigits =>
            exact .marker top _
              ((List.takeWhile_prefix _).eq_of_length allDigits.1)
        · split at undecided <;> simp at undecided
    · simp at undecided

private theorem waits_of_stepDash {rest : Text} (code : lexer.lex = .code)
    (undecided : (lexer.stepDash false rest).1 = .needMore) :
    Waits lexer ('-' :: rest) := by
  unfold stepDash at undecided
  split at undecided
  · exact .dash code
  · split at undecided
    · next dash =>
        subst dash
        split at undecided
        · exact .dashes code
        · split at undecided <;> simp at undecided
    · simp at undecided

theorem waits_of_stepPlain {head : Char} {rest : Text}
    (lex : lexer.lex = .code ∨ lexer.lex = .lineComment)
    (undecided : (lexer.stepPlain false head rest).1 = .needMore) :
    Waits lexer (head :: rest) := by
  unfold stepPlain at undecided
  split at undecided
  · next star =>
      obtain ⟨rfl, inside⟩ := star
      unfold stepStar at undecided
      split at undecided
      · exact .star inside
      · split at undecided <;> simp at undecided
  · split at undecided
    · next slash =>
        obtain ⟨rfl, noComment⟩ := slash
        have code := lex.resolve_right noComment
        unfold stepSlash at undecided
        split at undecided
        · exact .slash code
        · split at undecided
          · next star =>
              subst star
              split at undecided
              · next outside =>
                  exact waits_of_stepMarker
                    (by simp [atTopLevel, outside, code]) undecided
              · simp at undecided
          · simp at undecided
    · split at undecided
      · next code =>
          simp only [inCode, Bool.and_eq_true, beq_iff_eq] at code
          split at undecided
          · simp at undecided
          · split at undecided
            · simp at undecided
            · split at undecided
              · next dash =>
                  subst dash
                  exact waits_of_stepDash code.1 undecided
              · simp at undecided
      · split at undecided <;> simp at undecided

theorem waits_of_needMore (nonempty : text ≠ [])
    (undecided : (lexer.step false text).1 = .needMore) : Waits lexer text := by
  cases text with
  | nil => exact absurd rfl nonempty
  | cons head tail =>
      unfold step at undecided
      cases lex : lexer.lex with
      | code =>
          rw [lex] at undecided
          exact waits_of_stepPlain (.inl lex) undecided
      | lineComment =>
          rw [lex] at undecided
          exact waits_of_stepPlain (.inr lex) undecided
      | quoted quote =>
          rw [lex] at undecided
          dsimp only at undecided
          split at undecided
          · simp at undecided
          · split at undecided <;> simp at undecided
      | escaped quote =>
          rw [lex] at undecided
          simp at undecided

theorem places_take_of_covers {head : Char} {tail : Text} {count : Nat}
    (top : lexer.atTopLevel = true)
    (inCode : lexer.inCodeAt (head :: tail) (count + 1) = true)
    (covers : count + 1 ≤ lexer.taken (head :: tail)) :
    (lexer.places (head :: tail)).take (count + 1) =
      List.replicate (count + 1) .code := by
  have stays : (lexer.next (head :: tail)).atTopLevel = true := by
    rw [inCodeAt] at inCode
    split at inCode
    · next within =>
        rwa [Nat.sub_eq_zero_of_le covers, inCodeAt_zero] at inCode
    · simp only [Bool.and_eq_true] at inCode
      exact inCode.2
  rw [places, List.take_append_of_le_length (by rwa [List.length_replicate]),
    List.take_replicate, lexicalClass_eq_code_iff.mpr top,
    lexicalClass_eq_code_iff.mpr stays, Nat.min_eq_left covers]
  rfl

/-- A step that keeps the lexer out of the top level does not reach code. -/
theorem atTopLevel_of_inCodeAt {head : Char} {tail : Text} {count : Nat}
    (inCode : lexer.inCodeAt (head :: tail) (count + 1) = true)
    (covers : count + 1 ≤ lexer.taken (head :: tail))
    (stays : (lexer.next (head :: tail)).atTopLevel = true →
      lexer.atTopLevel = true) :
    lexer.atTopLevel = true := by
  rw [inCodeAt] at inCode
  split at inCode
  · rw [Nat.sub_eq_zero_of_le covers, inCodeAt_zero] at inCode
    exact stays inCode
  · simp only [Bool.and_eq_true] at inCode
    exact inCode.1

private theorem atTopLevel_of_slash {tail : Text} (code : lexer.lex = .code)
    (stays : (lexer.next ('/' :: tail)).atTopLevel = true) :
    lexer.atTopLevel = true := by
  obtain ⟨step, after, -, nextEq, outcome⟩ :=
    lexer.outcome_taken (List.cons_ne_nil '/' tail)
  rw [nextEq] at stays
  cases outcome with
  | character head tail =>
      rwa [behind_of_plain (.inl code) rfl (by decide) (.inr code)] at stays
  | marker top tail => exact top
  | openGuard top digits tail nonempty allDigits => exact top
  | openPlain code tail => simp [atTopLevel, openOne] at stays

theorem dash_cases (code : lexer.lex = .code) (tail : Text) :
    lexer.taken ('-' :: tail) = 1 ∧ lexer.next ('-' :: tail) = lexer ∨
      lexer.taken ('-' :: tail) = 2 ∧
        (lexer.next ('-' :: tail)).atTopLevel = false ∧
        tail.head? = some '-' := by
  obtain ⟨step, after, takenEq, nextEq, outcome⟩ :=
    lexer.outcome_taken (List.cons_ne_nil '-' tail)
  rw [takenEq, nextEq]
  cases outcome with
  | character head tail =>
      exact .inl ⟨rfl, behind_of_plain (.inl code) rfl (by decide) (.inr code)⟩
  | dashes code tail => exact .inr ⟨rfl, by simp [atTopLevel], rfl⟩

private theorem not_inCodeAt_star {tail : Text} (inside : 0 < lexer.depth) :
    lexer.inCodeAt ('*' :: tail) 1 = false := by
  have noTop : lexer.atTopLevel = false := by
    simp [atTopLevel, Nat.ne_of_gt inside]
  obtain ⟨step, after, takenEq, nextEq, outcome⟩ :=
    lexer.outcome_taken (List.cons_ne_nil '*' tail)
  rw [inCodeAt, takenEq, nextEq]
  cases outcome with
  | character head tail =>
      simp [Step.consumed, atTopLevel, behind, Nat.ne_of_gt inside]
  | close inside tail => simp [Step.consumed, noTop]

theorem covers_opening (code : lexer.lex = .code) (tail : Text) :
    2 ≤ lexer.taken ('/' :: '*' :: tail) := by
  obtain ⟨step, after, takenEq, -, outcome⟩ :=
    lexer.outcome_taken (List.cons_ne_nil '/' ('*' :: tail))
  rw [takenEq]
  generalize inputEq : '/' :: '*' :: tail = input at outcome
  cases outcome with
  | character head behind noOpening =>
      simp only [List.cons.injEq] at inputEq
      obtain ⟨rfl, rfl⟩ := inputEq
      exact absurd ⟨code, rfl, rfl⟩ noOpening
  | dashes code tail => simp at inputEq
  | marker top tail => simp [Step.consumed]
  | openGuard top digits tail nonempty allDigits =>
      simp [Step.consumed, guardMarker]; omega
  | openPlain code tail => simp [Step.consumed]
  | close inside tail => simp at inputEq

theorem covers_marker (top : lexer.atTopLevel = true) {digits : Text}
    (allDigits : digits.takeWhile Char.isDigit = digits) (rest : Text) :
    digits.length + 3 ≤
      lexer.taken ('/' :: '*' :: '!' :: (digits ++ rest)) := by
  obtain ⟨step, after, takenEq, -, outcome⟩ :=
    lexer.outcome_taken (List.cons_ne_nil '/' ('*' :: '!' :: (digits ++ rest)))
  rw [takenEq]
  generalize inputEq : '/' :: '*' :: '!' :: (digits ++ rest) = input at outcome
  have reaches :
      digits.length ≤ ((digits ++ rest).takeWhile Char.isDigit).length := by
    rw [List.takeWhile_append, if_pos (by rw [allDigits]), List.length_append]
    omega
  simp only [atTopLevel, Bool.and_eq_true, beq_iff_eq] at top
  cases outcome with
  | character head behind noOpening =>
      simp only [List.cons.injEq] at inputEq
      obtain ⟨rfl, rfl⟩ := inputEq
      exact absurd ⟨top.2, rfl, rfl⟩ noOpening
  | dashes code tail => simp at inputEq
  | marker marked tail noDigit =>
      simp only [List.cons.injEq, true_and] at inputEq
      rw [inputEq, noDigit] at reaches
      simp only [Step.consumed]
      simpa using reaches
  | openGuard marked found tail nonempty foundAll =>
      simp only [guardMarker, List.cons_append, List.nil_append,
        List.cons.injEq, true_and]
        at inputEq
      rw [inputEq, foundAll] at reaches
      simp only [Step.consumed, guardMarker, List.length_cons, List.length_nil]
      omega
  | openPlain code tail noMark =>
      simp only [List.cons.injEq, true_and] at inputEq
      exact absurd (by rw [← inputEq]; rfl) (noMark top.1)
  | close inside tail => simp at inputEq

theorem inCodeAt_dash (code : lexer.lex = .code)
    (inCode : lexer.inCodeAt ('-' :: rest) 1 = true) :
    lexer.atTopLevel = true ∧ lexer.taken ('-' :: rest) = 1 ∧
      lexer.next ('-' :: rest) = lexer := by
  rw [inCodeAt] at inCode
  rcases dash_cases code rest with ⟨one, same⟩ | ⟨two, leaves, -⟩
  · rw [one, if_pos (Nat.le_refl 1), same, inCodeAt_zero] at inCode
    exact ⟨inCode, one, same⟩
  · rw [two, if_neg (by omega), leaves, Bool.and_false] at inCode
    exact absurd inCode Bool.false_ne_true

/-- In front of a cut in code, an undecided text is code. -/
theorem places_take_of_waits (waits : Waits lexer text)
    (inCode : lexer.inCodeAt (text ++ rest) text.length = true) :
    (lexer.places (text ++ rest)).take text.length =
      List.replicate text.length .code := by
  cases waits with
  | star inside =>
      exact absurd inCode (by simp [not_inCodeAt_star inside])
  | slash code =>
      have covers := lexer.taken_pos '/' rest
      have top :=
        atTopLevel_of_inCodeAt inCode covers (atTopLevel_of_slash code)
      exact places_take_of_covers top inCode covers
  | opening top =>
      simp only [atTopLevel, Bool.and_eq_true, beq_iff_eq] at top
      exact places_take_of_covers (by simp [atTopLevel, top]) inCode
        (covers_opening top.2 rest)
  | marker top digits allDigits =>
      exact places_take_of_covers top inCode (covers_marker top allDigits rest)
  | dash code =>
      obtain ⟨top, _⟩ := inCodeAt_dash code inCode
      exact places_take_of_covers top inCode (lexer.taken_pos '-' rest)
  | dashes code =>
      -- Neither dash begins a comment: such a step would cover the cut or end
      -- behind it.
      rw [List.length_cons, List.length_singleton] at inCode ⊢
      rcases dash_cases code ('-' :: rest) with ⟨one, same⟩ | ⟨two, leaves, -⟩
      · have second : lexer.inCodeAt ('-' :: rest) 1 = true := by
          rwa [List.cons_append, List.singleton_append, inCodeAt, one,
            if_pos (by omega), same]
            at inCode
        obtain ⟨top, alone, keeps⟩ := inCodeAt_dash code second
        have inCodeClass := lexicalClass_eq_code_iff.mpr top
        rw [List.cons_append, List.singleton_append, places, one, same,
          inCodeClass, List.drop_succ_cons, List.drop_zero, places, alone,
          keeps, inCodeClass]
        rfl
      · rw [List.cons_append, List.singleton_append, inCodeAt, two,
          if_pos (Nat.le_refl 2), Nat.sub_self, inCodeAt_zero, leaves] at inCode
        exact absurd inCode Bool.false_ne_true

section

variable {head : Char} {tail : Text} {step : Step}

theorem step_more (more : Text)
    (stepEq : lexer.step false (head :: tail) = (step, after))
    (decided : step ≠ .needMore) :
    lexer.step true (head :: tail ++ more) = (step, after) ∧
      step.consumed ≤ (head :: tail).length := by
  have fits := lexer.consumed_step_le false (head :: tail)
  have same := lexer.step_append true more (by rwa [stepEq])
  rw [stepEq] at fits same
  exact ⟨same, fits⟩

theorem inCodeAt_of_decided (more : Text)
    (stepEq : lexer.step false (head :: tail) = (step, after))
    (decided : step ≠ .needMore) :
    lexer.inCodeAt (head :: tail ++ more) (head :: tail).length =
      after.inCodeAt ((head :: tail).drop step.consumed ++ more)
        ((head :: tail).drop step.consumed).length := by
  obtain ⟨same, fits⟩ := step_more more stepEq decided
  rw [List.length_drop, List.length_cons, inCodeAt_append_of_step same fits]
  exact if_pos fits

theorem places_of_decided (more : Text)
    (stepEq : lexer.step false (head :: tail) = (step, after))
    (decided : step ≠ .needMore) :
    (lexer.places (head :: tail ++ more)).take (head :: tail).length =
      List.replicate step.consumed ⟨lexer.lexicalClass, after.lexicalClass⟩ ++
        (after.places ((head :: tail).drop step.consumed ++ more)).take
          ((head :: tail).drop step.consumed).length := by
  obtain ⟨same, fits⟩ := step_more more stepEq decided
  rw [places_append_of_step same fits, List.take_append, List.length_replicate,
    List.length_drop, List.take_of_length_le (by rwa [List.length_replicate])]

end

/-- Induction along the steps that a text decides, up to what it leaves
undecided. -/
theorem decided_induction {motive : Lexer → Text → Prop}
    (nil : ∀ lexer, motive lexer [])
    (waits : ∀ lexer text, Waits lexer text → motive lexer text)
    (step : ∀ lexer head tail step after,
      lexer.step false (head :: tail) = (step, after) → step ≠ .needMore →
      motive after ((head :: tail).drop step.consumed) →
      motive lexer (head :: tail)) (lexer : Lexer) (text : Text) :
    motive lexer text := by
  induction lexer, text using step_induction false with
  | nil lexer => exact nil lexer
  | wait lexer head tail undecided =>
      exact waits _ _ (waits_of_needMore (List.cons_ne_nil head tail) undecided)
  | step lexer head tail taken after stepEq decided ih =>
      exact step lexer head tail taken after stepEq decided ih

theorem places_take_congr {first second : Text}
    (inFirst : lexer.inCodeAt (text ++ first) text.length = true)
    (inSecond : lexer.inCodeAt (text ++ second) text.length = true) :
    (lexer.places (text ++ first)).take text.length =
      (lexer.places (text ++ second)).take text.length := by
  induction lexer, text using decided_induction with
  | nil lexer => rfl
  | waits lexer text waits =>
      rw [places_take_of_waits waits inFirst,
        places_take_of_waits waits inSecond]
  | step lexer head tail step after stepEq decided ih =>
      rw [inCodeAt_of_decided _ stepEq decided] at inFirst inSecond
      rw [places_of_decided _ stepEq decided,
        places_of_decided _ stepEq decided, ih inFirst inSecond]

/-- A cut in code stays one if the place in front of it is not code on both
sides. -/
theorem inCodeAt_of_last {first second : Text}
    (inFirst : lexer.inCodeAt (text ++ first) text.length = true)
    (last : ((lexer.places (text ++ first)).take text.length).getLast? ≠
        some .code) :
    lexer.inCodeAt (text ++ second) text.length = true := by
  induction lexer, text using decided_induction with
  | nil lexer =>
      rw [List.length_nil, inCodeAt_zero] at inFirst ⊢
      exact inFirst
  | waits lexer text waits =>
      exfalso
      apply last
      rw [places_take_of_waits waits inFirst, List.getLast?_replicate, if_neg]
      exact fun empty => waits.ne_nil (List.length_eq_zero_iff.mp empty)
  | step lexer head tail step after stepEq decided ih =>
      rw [inCodeAt_of_decided _ stepEq decided] at inFirst ⊢
      rw [places_of_decided _ stepEq decided, List.getLast?_append] at last
      apply ih inFirst
      intro same
      apply last
      rw [same]
      rfl

end Lexer

end SqlDump
