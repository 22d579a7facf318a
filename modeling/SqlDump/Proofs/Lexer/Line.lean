import SqlDump.Proofs.Lexer.Search
import SqlDump.Proofs.Lexer.Seam
import SqlDump.Proofs.Lexer.Trivia

/-!
# Lines

A line break is a step of its own, so what the lexer makes of it does not depend
on what follows, and behind it no line comment is open.  From there on a line is
a line comment if it begins in code with a mark of line comments; and what is
open stays open in front of the first mark or quote.
-/

namespace SqlDump

namespace Lexer

variable {lexer after : Lexer} {front piece rest : Text} {head : Char}
  {tail : Text}

theorem separator_break : Separator '\n' :=
  separator_lineBlank (by decide)

theorem step_break (lexer : Lexer) (rest : Text) :
    lexer.step true ('\n' :: rest) = (.skip 1, lexer.behind '\n') := by
  have outcome := outcome_next lexer (List.cons_ne_nil '\n' rest)
  generalize stepEq : lexer.step true ('\n' :: rest) = result at outcome ⊢
  rw [next, stepEq] at outcome
  obtain ⟨step, after⟩ := result
  generalize inputEq : '\n' :: rest = input at outcome
  cases outcome with
  | character head tail =>
      rw [(List.cons.inj inputEq).1]
      rfl
  | dashes code tail => simp at inputEq
  | marker top tail => simp at inputEq
  | openGuard top digits tail => simp [guardMarker] at inputEq
  | openPlain code tail => simp at inputEq
  | close inside tail => simp at inputEq

private theorem lexicalClass_ne_lineComment {lexer : Lexer}
    (notComment : lexer.lex ≠ .lineComment) :
    lexer.lexicalClass ≠ .lineComment := by
  obtain ⟨depth, guarded, lex⟩ := lexer
  unfold lexicalClass
  split
  · split <;> simp
  · cases lex with
    | lineComment => exact absurd rfl notComment
    | code => simp
    | quoted quote => simp
    | escaped quote => simp

private theorem lexicalClass_behind_break (lexer : Lexer) :
    (lexer.behind '\n').lexicalClass ≠ .lineComment := by
  apply lexicalClass_ne_lineComment
  change lexer.lexBehind '\n' ≠ .lineComment
  unfold lexBehind
  split
  · split
    · simp
    · split <;> simp
  · simp
  · simp
  · split <;> simp [isQuote, singleQuote, doubleQuote, backtick]

theorem reads_break (lexer : Lexer) (front : Text) :
    ∃ steps after, after.lexicalClass ≠ .lineComment ∧
      ∀ rest, Reads lexer (front ++ '\n' :: rest) steps after rest := by
  induction lexer, front using separator_induction separator_break with
  | nil lexer =>
      refine ⟨[.skip 1], lexer.behind '\n', lexicalClass_behind_break lexer,
        fun rest => ?_⟩
      exact Reads.of_decided (step_break lexer rest) (by simp)
  | step lexer head tail step after progress fits stepEq ih =>
      obtain ⟨steps, last, notComment, reads⟩ := ih
      refine ⟨step :: steps, last, notComment, fun rest => ?_⟩
      have decided : step ≠ .needMore := by
        rintro rfl
        exact absurd progress (Nat.lt_irrefl 0)
      have first := Reads.of_decided (stepEq rest) decided
      rw [List.drop_append_of_le_length fits] at first
      exact first.trans (reads rest)

/-- The first token stands in front of the line break, or it is looked for
behind it. -/
theorem triviaLength_break (lexer : Lexer) (front : Text) :
    (∃ count, count ≤ front.length ∧
        ∀ rest, lexer.triviaLength (front ++ '\n' :: rest) = count) ∨
      ∃ steps after, ∀ rest, Reads lexer (front ++ '\n' :: rest) steps
        after rest ∧
        lexer.triviaLength (front ++ '\n' :: rest) =
          front.length + 1 + after.triviaLength rest := by
  induction lexer, front using separator_induction separator_break with
  | nil lexer =>
      refine .inr ⟨[.skip 1], lexer.behind '\n', fun rest => ⟨?_, ?_⟩⟩
      · exact Reads.of_decided (step_break lexer rest) (by simp)
      · rw [List.nil_append, triviaLength_cons, taken, next, step_break]
        simp [isAsciiBlank, Step.consumed]
  | step lexer head tail step after progress fits stepEq ih =>
      have decided : step ≠ .needMore := by
        rintro rfl
        exact absurd progress (Nat.lt_irrefl 0)
      by_cases token :
          (lexer.atTopLevel && !isAsciiBlank head &&
            !beginsComment (step, after)) = true
      · refine .inl ⟨0, Nat.zero_le _, fun rest => ?_⟩
        rw [triviaLength_of_step (stepEq rest) fits, if_pos token]
      · rcases ih with ⟨count, within, found⟩ | ⟨steps, last, passes⟩
        · refine .inl ⟨step.consumed + count, ?_, fun rest => ?_⟩
          · rw [List.length_drop] at within
            omega
          · rw [triviaLength_of_step (stepEq rest) fits, if_neg token, found]
        · refine .inr ⟨step :: steps, last, fun rest => ?_⟩
          obtain ⟨reads, found⟩ := passes rest
          have first := Reads.of_decided (stepEq rest) decided
          rw [List.drop_append_of_le_length fits] at first
          refine ⟨first.trans reads, ?_⟩
          rw [triviaLength_of_step (stepEq rest) fits, if_neg token, found,
            List.length_drop]
          omega

theorem Reads.quoting {input : Text} {steps : List Step}
    (reads : Reads lexer input steps after rest) (quoting : lexer.Quoting) :
    after.Quoting := by
  induction reads with
  | done lexer rest => exact quoting
  | step nonempty behind ih =>
      exact ih ((outcome_next _ nonempty).quoting quoting)

private theorem places_inLine (noBreak : '\n' ∉ piece) (rest : Text) :
    inLine.places (piece ++ rest) =
      List.replicate piece.length ⟨.lineComment, .lineComment⟩ ++
      inLine.places rest := by
  induction piece with
  | nil => rfl
  | cons head tail ih =>
      simp only [List.mem_cons, not_or] at noBreak
      have stepEq : inLine.step true (head :: (tail ++ rest)) =
          (.skip 1, inLine) := by
        simp [step, stepPlain, inLine, inCode, Ne.symm noBreak.1]
      rw [List.cons_append, places, taken, next, stepEq, Step.consumed,
        List.drop_succ_cons, List.drop_zero, ih noBreak.2]
      rfl

theorem reads_dashes (noBreak : '\n' ∉ piece) (rest : Text) :
    ∃ steps, Reads {} ('-' :: '-' :: ' ' :: piece ++ '\n' :: rest) steps
      {} rest := by
  have opening :
      ({} : Lexer).step true ('-' :: '-' :: ' ' :: piece ++ '\n' :: rest) =
        (.skip 2, inLine) := rfl
  have opens := Reads.of_decided opening (by simp)
  have line : ∀ piece : Text, '\n' ∉ piece →
      ∃ steps, Reads inLine (piece ++ '\n' :: rest) steps {} rest := by
    intro piece noBreak
    induction piece with
    | nil => exact ⟨_, Reads.of_decided (step_break inLine rest) (by simp)⟩
    | cons head tail ih =>
        simp only [List.mem_cons, not_or] at noBreak
        obtain ⟨steps, reads⟩ := ih noBreak.2
        have stepEq : inLine.step true (head :: (tail ++ '\n' :: rest)) =
            (.skip 1, inLine) := by
          simp [step, stepPlain, inLine, inCode, Ne.symm noBreak.1]
        exact ⟨_, (Reads.of_decided stepEq (by simp)).trans reads⟩
  obtain ⟨steps, reads⟩ := line (' ' :: piece) (by simp [noBreak])
  exact ⟨_, opens.trans reads⟩

/-- Two dashes and a space in code make the rest of their line a line
comment. -/
theorem lexicalClass_of_dashes (noBreak : '\n' ∉ piece) (rest : Text) :
    ∀ place ∈ (({} : Lexer).places ('-' :: '-' :: ' ' :: piece ++ rest)).take
      (piece.length + 3),
      place.lexicalClass = .lineComment := by
  have stepEq : ({} : Lexer).step true ('-' :: '-' :: ' ' :: piece ++ rest) =
      (.skip 2, inLine) := rfl
  have spaced : '\n' ∉ ' ' :: piece := by simp [noBreak]
  have placesEq : ({} : Lexer).places ('-' :: '-' :: ' ' :: piece ++ rest) =
      List.replicate 2 ⟨.code, .lineComment⟩ ++
        (List.replicate (piece.length + 1) ⟨.lineComment, .lineComment⟩ ++
          inLine.places rest) := by
    have behind := places_inLine spaced rest
    rw [List.length_cons] at behind
    rw [← behind]
    exact places_append_of_step stepEq (by simp [Step.consumed])
  intro place member
  rw [placesEq, ← List.append_assoc, List.take_left' (by simp)] at member
  rcases List.mem_append.mp member with dash | later
  · rw [(List.mem_replicate.mp dash).2]
    rfl
  · rw [(List.mem_replicate.mp later).2]
    rfl

/-- In a literal, a plain comment or a guard. -/
structure Foreign (lexer : Lexer) : Prop where
  notCode : lexer.lexicalClass ≠ .code
  notComment : lexer.lexicalClass ≠ .lineComment
  quoting : lexer.Quoting

/-- The characters that can end what is open, or begin something inside of
it. -/
def marksAndQuotes : List Char :=
  ['*', '/', singleQuote, doubleQuote, backtick]

theorem Foreign.behind (foreign : lexer.Foreign)
    (plain : head ∉ marksAndQuotes) :
    (lexer.behind head).Foreign := by
  refine ⟨?_, ?_, foreign.quoting.behind head⟩ <;>
  · have notCode := foreign.notCode
    have notComment := foreign.notComment
    have quoting := foreign.quoting
    unfold lexicalClass at notCode notComment ⊢
    by_cases outside : lexer.depth = 0
    · cases lex : lexer.lex with
      | code => simp [outside, lex] at notCode
      | lineComment => simp [outside, lex] at notComment
      | escaped quote => simp [Lexer.behind, lexBehind, outside, lex]
      | quoted quote =>
          have isQuote := quoting quote (.inl lex)
          have other : head ≠ quote := by
            rintro rfl
            simp only [SqlDump.isQuote, Bool.or_eq_true, beq_iff_eq] at isQuote
            rcases isQuote with (rfl | rfl) | rfl <;> exact plain (by decide)
          by_cases escapes : head = backslash ∧ quote ≠ backtick
          · obtain ⟨rfl, named⟩ := escapes
            simp [Lexer.behind, lexBehind, outside, lex, other, named]
          · simp [Lexer.behind, lexBehind, outside, lex, other, escapes]
    · cases guarded : lexer.guarded <;> simp [Lexer.behind, outside, guarded]

theorem Foreign.next (foreign : lexer.Foreign) (plain : head ∉ marksAndQuotes)
    (tail : Text) :
    (lexer.next (head :: tail)).Foreign := by
  have outcome := outcome_next lexer (List.cons_ne_nil head tail)
  have notTop : lexer.atTopLevel ≠ true := fun top =>
    foreign.notCode (lexicalClass_eq_code_iff.mpr top)
  generalize lexer.next (head :: tail) = after at outcome ⊢
  generalize (lexer.step true (head :: tail)).1 = step at outcome
  generalize inputEq : head :: tail = input at outcome
  cases outcome with
  | character first rest =>
      rw [← (List.cons.inj inputEq).1]
      exact foreign.behind plain
  | dashes code rest =>
      -- Dashes are read as such inside a guard only.
      have inside : lexer.depth ≠ 0 := fun outside => notTop (by
        simp only [inCode, Bool.and_eq_true] at code
        simp [atTopLevel, outside, code.1])
      refine ⟨?_, ?_, quoting_of_plain (.inr rfl)⟩ <;>
      · rw [lexicalClass, if_pos inside]
        split <;> simp
  | marker top rest => exact absurd top notTop
  | openGuard top digits rest => exact absurd top notTop
  | openPlain code rest =>
      rw [(List.cons.inj inputEq).1] at plain
      exact absurd (by decide) plain
  | close inside rest =>
      rw [(List.cons.inj inputEq).1] at plain
      exact absurd (by decide) plain

theorem Foreign.lexicalClass_place (foreign : lexer.Foreign)
    (after : LexicalClass) :
    (⟨lexer.lexicalClass, after⟩ : Place).lexicalClass ≠ .code ∧
      (⟨lexer.lexicalClass, after⟩ : Place).lexicalClass ≠ .lineComment := by
  rw [Place.lexicalClass, if_neg foreign.notCode]
  exact ⟨foreign.notCode, foreign.notComment⟩

/-- Along characters that are neither marks nor quotes, the places stay what
they are. -/
theorem Foreign.places (foreign : lexer.Foreign)
    (plain : ∀ character ∈ piece, character ∉ marksAndQuotes) (rest : Text) :
    ∀ place ∈ (lexer.places (piece ++ rest)).take piece.length,
      place.lexicalClass ≠ .code ∧ place.lexicalClass ≠ .lineComment := by
  induction lexer, piece using Text.drop_induction with
  | nil lexer => simp
  | cons lexer head tail ih =>
      intro place member
      rw [List.cons_append, Lexer.places, List.take_append,
        List.length_replicate, List.take_replicate] at member
      rcases List.mem_append.mp member with here | later
      · rw [(List.mem_replicate.mp here).2]
        exact foreign.lexicalClass_place _
      · have progress := lexer.taken_pos head (tail ++ rest)
        rcases Nat.le_total (lexer.taken (head :: (tail ++ rest)))
          (head :: tail).length with
          fits | beyond
        · have dropEq :
              (head :: (tail ++ rest)).drop
                (lexer.taken (head :: (tail ++ rest))) =
              (head :: tail).drop (lexer.taken (head :: (tail ++ rest))) ++
                rest :=
            List.drop_append_of_le_length fits
          rw [dropEq] at later
          have nextForeign :=
            foreign.next (plain head List.mem_cons_self) (tail ++ rest)
          refine ih _ _ progress nextForeign (fun character member =>
            ?_) place ?_
          · exact plain character (List.mem_of_mem_drop member)
          · rw [List.length_drop]
            exact later
        · rw [Nat.sub_eq_zero_of_le beyond, List.take_zero] at later
          exact absurd later List.not_mem_nil

end Lexer

end SqlDump
