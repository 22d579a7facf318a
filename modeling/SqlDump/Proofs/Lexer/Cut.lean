import SqlDump.Proofs.Lexer.Place

/-!
# Places that show a cut in code

Whether a text can be cut in code can be read off the places at the cut, except
where a character repeats one that the step in front of it needs: the second
dash of a line comment, and the star of a marker.
-/

namespace SqlDump

namespace Lexer

variable {lexer after : Lexer} {text : Text}

private theorem not_mem_openers_of_isDigit {character : Char}
    (digit : character.isDigit = true) :
    character ∉ openers :=
  not_mem_of_all (by decide) digit

/-- Inside a step that leaves code only the second dash of a line comment could
begin something. -/
theorem inside_of_leaves {input : Text} {count : Nat} {step : Step}
    (outcome : Outcome lexer input step after) (top : lexer.atTopLevel = true)
    (leaves : after.atTopLevel = false) (inside : count + 1 < step.consumed) :
    ∃ head tail, input.drop (count + 1) = head :: tail ∧
      (head ∉ openers ∨ head = '-' ∧ tail.head? ≠ some '-') := by
  cases outcome with
  | character head tail => simp [Step.consumed] at inside
  | dashes code tail noDash =>
      simp only [Step.consumed] at inside
      obtain rfl : count = 0 := by omega
      exact ⟨'-', tail, rfl, .inr ⟨rfl, noDash⟩⟩
  | marker top tail =>
      rw [top] at leaves; exact absurd leaves.symm Bool.false_ne_true
  | openGuard top digits tail nonempty allDigits =>
      simp only [Step.consumed, guardMarker, List.length_cons, List.length_nil]
        at inside
      rcases count with _ | _ | count
      · exact ⟨'*', _, rfl, .inl (by decide)⟩
      · exact ⟨'!', _, rfl, .inl (by decide)⟩
      · have within : count < digits.length := by omega
        have digit : digits[count].isDigit = true := by
          have member :
              digits[count] ∈ (digits ++ tail).takeWhile Char.isDigit := by
            rw [allDigits]
            exact List.getElem_mem within
          exact List.all_eq_true.mp List.all_takeWhile _ member
        refine ⟨digits[count], digits.drop (count + 1) ++ tail, ?_,
          .inl (not_mem_openers_of_isDigit digit)⟩
        show (digits ++ tail).drop count = _
        rw [List.drop_append_of_le_length (Nat.le_of_lt within),
          List.drop_eq_getElem_cons within, List.cons_append]
  | openPlain code tail =>
      simp only [Step.consumed] at inside
      obtain rfl : count = 0 := by omega
      exact ⟨'*', tail, rfl, .inl (by decide)⟩
  | close deeper tail =>
      simp only [atTopLevel, Bool.and_eq_true, beq_iff_eq] at top
      exact absurd top.1 (Nat.ne_of_gt deeper)

/-- A character whose place begins in code stands behind a cut in code, or
inside a step that leaves code. -/
theorem inCodeAt_of_begins {count : Nat} {behind : LexicalClass}
    (place : (lexer.places text)[count]? = some ⟨.code, behind⟩) :
    lexer.inCodeAt text count = true ∨
      behind ≠ .code ∧ ∃ head tail, text.drop count = head :: tail ∧
        (head ∉ openers ∨ head = '-' ∧ tail.head? ≠ some '-') := by
  fun_induction Lexer.inCodeAt lexer text count with
  | case1 lexer text =>
      left
      cases text with
      | nil => simp [places] at place
      | cons head tail =>
          have progress := lexer.taken_pos head tail
          rw [getElem?_places_of_lt progress] at place
          simp only [Option.some.injEq, Place.mk.injEq] at place
          exact lexicalClass_eq_code_iff.mp place.1
  | case2 lexer count => simp [places] at place
  | case3 lexer head tail count within ih =>
      rw [getElem?_places_of_le within] at place
      have later := ih place
      rwa [List.drop_drop, Nat.add_sub_cancel' within] at later
  | case4 lexer head tail count beyond =>
      have inside : count + 1 < lexer.taken (head :: tail) := by omega
      rw [getElem?_places_of_lt inside] at place
      simp only [Option.some.injEq, Place.mk.injEq] at place
      have top := lexicalClass_eq_code_iff.mp place.1
      cases stays : (lexer.next (head :: tail)).atTopLevel with
      | true => exact .inl (by rw [top]; rfl)
      | false =>
          have leaves : behind ≠ .code := by
            intro same
            rw [← place.2, lexicalClass_eq_code_iff, stays] at same
            exact Bool.false_ne_true same
          exact .inr ⟨leaves,
            inside_of_leaves (outcome_next lexer (List.cons_ne_nil head tail))
              top stays inside⟩

theorem nested_lexicalClass (lexer : Lexer) :
    lexer.lexicalClass.nested = true ↔ 0 < lexer.depth := by
  cases lexer with
  | mk depth guarded lex =>
      by_cases outside : depth = 0
      · subst outside
        cases lex <;> simp [lexicalClass, LexicalClass.nested]
      · cases guarded <;> simp [lexicalClass, LexicalClass.nested, outside,
          Nat.pos_of_ne_zero]

private theorem depth_of_star {input : Text} {count : Nat} {step : Step}
    (outcome : Outcome lexer input step after) (stays : after.atTopLevel = true)
    (last : count + 1 = step.consumed) (star : input[count]? = some '*') :
    lexer.depth = 0 := by
  simp only [atTopLevel, Bool.and_eq_true, beq_iff_eq] at stays
  cases outcome with
  | character head tail => exact stays.1
  | dashes code tail => simp at stays
  | marker top tail => exact stays.1
  | openGuard top digits tail nonempty allDigits => simp [enterGuard] at stays
  | openPlain code tail => simp [openOne] at stays
  | close inside tail =>
      simp only [Step.consumed] at last
      obtain rfl : count = 1 := by omega
      simp at star

/-- A step to code that is not over was in code before, or it closes a comment
behind a star. -/
theorem inside_of_reaches {input : Text} {count : Nat} {step : Step}
    (outcome : Outcome lexer input step after) (stays : after.atTopLevel = true)
    (inside : count + 1 < step.consumed) :
    lexer.atTopLevel = true ∨ input[count]? = some '*' ∧ 0 < lexer.depth := by
  cases outcome with
  | character head tail => simp [Step.consumed] at inside
  | dashes code tail => simp [atTopLevel] at stays
  | marker top tail => exact .inl top
  | openGuard top digits tail nonempty allDigits => exact .inl top
  | openPlain code tail => simp [atTopLevel, openOne] at stays
  | close deeper tail =>
      simp only [Step.consumed] at inside
      obtain rfl : count = 0 := by omega
      exact .inr ⟨rfl, deeper⟩

/-- In front of a cut in code, a place ends in code, and no star there ends a
comment. -/
theorem ends_of_inCodeAt {count : Nat} (fits : count < text.length)
    (inCode : lexer.inCodeAt text (count + 1) = true) :
    ∃ front, (lexer.places text)[count]? = some ⟨front, .code⟩ ∧
      (text[count]? = some '*' → front.nested = false) := by
  induction lexer, text using places.induct generalizing count with
  | case1 => simp at fits
  | case2 lexer head tail ih =>
      rw [inCodeAt] at inCode
      by_cases within : lexer.taken (head :: tail) ≤ count
      · rw [if_pos (by omega), Nat.sub_add_comm within] at inCode
        have later := ih (by rw [List.length_drop]; omega) inCode
        rw [getElem?_places_of_le within]
        rwa [List.getElem?_drop, Nat.add_sub_cancel' within] at later
      · have outcome := outcome_next lexer (List.cons_ne_nil head tail)
        rw [getElem?_places_of_lt (by omega)]
        by_cases last : count + 1 = lexer.taken (head :: tail)
        · rw [if_pos (by omega), last, Nat.sub_self, inCodeAt_zero] at inCode
          refine ⟨lexer.lexicalClass,
            by rw [lexicalClass_eq_code_iff.mpr inCode], fun star => ?_⟩
          have outside := depth_of_star outcome inCode last star
          rw [Bool.eq_false_iff, Ne, nested_lexicalClass, outside]
          exact Nat.lt_irrefl 0
        · rw [if_neg (by omega)] at inCode
          simp only [Bool.and_eq_true] at inCode
          rw [lexicalClass_eq_code_iff.mpr inCode.1,
            lexicalClass_eq_code_iff.mpr inCode.2]
          exact ⟨.code, rfl, fun _ => rfl⟩

theorem inCodeAt_of_ends {count : Nat} {front : LexicalClass}
    (place : (lexer.places text)[count]? = some ⟨front, .code⟩) :
    lexer.inCodeAt text (count + 1) = true ∨ text[count]? = some '*' ∧
      front.nested = true := by
  induction lexer, text using places.induct generalizing count with
  | case1 => simp at place
  | case2 lexer head tail ih =>
      rw [inCodeAt]
      by_cases within : lexer.taken (head :: tail) ≤ count
      · rw [getElem?_places_of_le within] at place
        have later := ih place
        rw [if_pos (by omega), Nat.sub_add_comm within]
        rwa [List.getElem?_drop, Nat.add_sub_cancel' within] at later
      · rw [getElem?_places_of_lt (by omega)] at place
        simp only [Option.some.injEq, Place.mk.injEq] at place
        obtain ⟨frontEq, behindEq⟩ := place
        have stays := lexicalClass_eq_code_iff.mp behindEq
        by_cases last : count + 1 = lexer.taken (head :: tail)
        · rw [if_pos (by omega), last, Nat.sub_self, inCodeAt_zero]
          exact .inl stays
        · rw [if_neg (by omega), stays, Bool.and_true]
          have outcome := outcome_next lexer (List.cons_ne_nil head tail)
          have inside :
              count + 1 < (lexer.step true (head :: tail)).1.consumed := by
            rw [← taken]
            omega
          rcases inside_of_reaches outcome stays inside with
              top | ⟨star, deeper⟩
          · exact .inl top
          · exact .inr ⟨star, by rwa [← frontEq, nested_lexicalClass]⟩

end Lexer

end SqlDump
