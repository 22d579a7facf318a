import SqlDump.Proofs.Guard.Content
import SqlDump.Proofs.Lexer.Place

/-!
# Code without comments

A text of literals and of characters that begin no comment.  It may stand in a
guard as it is, and where it stands outside, no guard begins in it and code goes
on behind it.
-/

namespace SqlDump

/-- Literals, and other characters that begin neither a comment nor a closing
marker. -/
inductive CodeText : Text → Prop where
  | nil : CodeText []
  | ordinary {head : Char} {tail : Text} (noQuote : isQuote head = false)
      (noLineComment : ¬BeginsLineComment (head :: tail))
      (noOpening : ¬commentMarker <+: head :: tail)
      (noClosing : ¬closingMarker <+: head :: tail) (later : CodeText tail) :
      CodeText (head :: tail)
  | literal {quote : Char} {body tail : Text} (opens : isQuote quote = true)
      (literal : Literal quote body) (later : CodeText tail) :
      CodeText (quote :: (body ++ tail))

variable {head first mark quote : Char} {tail text more body : Text}

/-- A character that may not stand in front of a comment does not make one
behind the text. -/
theorem BeginsLineComment.of_append
    (begins : BeginsLineComment (head :: (tail ++ first :: more)))
    (noPart : first ∉ ['-', ' ', '\t', '\r', '\n']) :
    BeginsLineComment (head :: tail) := by
  rcases begins with hash | ⟨blank, behind, split, isBlank⟩
  · exact .inl hash
  · right
    rcases tail with _ | ⟨second, _ | ⟨third, tail⟩⟩ <;>
      simp only [List.cons_append, List.nil_append, List.cons.injEq] at split
    · exact absurd (by simp [split.2.1]) noPart
    · exact absurd (by simpa [split.2.2.1] using .inr isBlank) noPart
    · obtain ⟨rfl, rfl, rfl, -⟩ := split
      exact ⟨third, tail, rfl, isBlank⟩

theorem not_prefix_append {second : Char}
    (other : ¬[head, second] <+: first :: tail)
    (boundary : tail = [] → [head, second] <+: [first, mark] → False) :
    ¬[head, second] <+: first :: (tail ++ mark :: more) := by
  intro front
  cases tail with
  | nil => exact boundary rfl (by simpa using front)
  | cons next tail => exact other (by simpa using front)

theorem CodeText.plain_append {front : Text} (code : CodeText text)
    (plain : ∀ character ∈ front, character ∉ '*' :: Lexer.openers) :
    CodeText (front ++ text) := by
  induction front with
  | nil => exact code
  | cons head front ih =>
      have other := plain head (.head front)
      simp only [Lexer.openers, List.mem_cons, List.not_mem_nil, or_false,
        not_or] at other
      refine .ordinary ?_ ?_ ?_ ?_ (ih fun character member =>
        plain character (.tail head member))
      · simp [isQuote, other]
      · simp [BeginsLineComment, other]
      · simp [commentMarker, Ne.symm other.2.2.2.2.2.2]
      · simp [closingMarker, Ne.symm other.1]

theorem CodeText.guardContent (code : CodeText text)
    (noSlash : text.getLast? ≠ some '/') :
    GuardContent text := by
  induction code with
  | nil => exact .nil
  | @ordinary head tail noQuote noLineComment noOpening noClosing later ih =>
      have noSlashLater : tail.getLast? ≠ some '/' := by
        intro slash
        apply noSlash
        obtain ⟨front, rfl⟩ := List.getLast?_eq_some_iff.mp slash
        rw [← List.cons_append, List.getLast?_concat]
      refine .ordinary noQuote (fun begins =>
        noLineComment (begins.of_append (by decide))) ?_ ?_
        (ih noSlashLater)
      · refine not_prefix_append noOpening fun empty front => noSlash ?_
        obtain ⟨rfl, -⟩ := List.cons_prefix_cons.mp front
        rw [empty]
        rfl
      · exact not_prefix_append noClosing fun empty front => by simp at front
  | @literal quote body tail opens literal later ih =>
      refine .literal opens literal (ih fun slash => noSlash ?_)
      obtain ⟨front, rfl⟩ := List.getLast?_eq_some_iff.mp slash
      rw [← List.append_assoc, ← List.cons_append, List.getLast?_concat]

namespace Lexer

private theorem step_code (noQuote : isQuote head = false)
    (noLineComment : ¬BeginsLineComment (head :: tail))
    (noDashes : tail ≠ ['-']) (noOpening : ¬commentMarker <+: head :: tail) :
    ({} : Lexer).step true (head :: tail) = (.skip 1, {}) := by
  simp only [commentMarker, List.cons_prefix_cons] at noOpening
  have noHash : head ≠ '#' := fun hash =>
    noLineComment (.inl (by rw [hash]; rfl))
  by_cases slash : head = '/'
  · subst slash
    cases tail with
    | nil => rfl
    | cons second tail =>
        have noStar : second ≠ '*' := fun star => noOpening (by simp [star])
        simp [step, stepPlain, stepSlash, noStar]
  · by_cases dash : head = '-'
    · subst dash
      rcases tail with _ | ⟨second, _ | ⟨third, tail⟩⟩
      · rfl
      · have other : second ≠ '-' := fun same => noDashes (by rw [same])
        simp [step, stepPlain, stepDash, inCode, noQuote, other]
      · by_cases dashes : second = '-'
        · subst dashes
          have noBlank :
          ¬(third = ' ' ∨ third = '\t' ∨ third = '\r' ∨ third = '\n') :=
            fun blank => noLineComment (.inr ⟨third, tail, rfl, blank⟩)
          simp [step, stepPlain, stepDash, inCode, noQuote, noBlank]
        · simp [step, stepPlain, stepDash, inCode, noQuote, dashes]
    · simp [step, stepPlain, inCode, slash, noQuote, noHash, dash]

private theorem inCodeAt_literal (literal : Literal quote body)
    (opens : isQuote quote = true) (rest : Text) :
    (∀ place < body.length,
      (⟨0, false, .quoted quote⟩ : Lexer).inCodeAt (body ++ rest) place =
        false) ∧
      ∀ later, (⟨0, false, .quoted quote⟩ : Lexer).inCodeAt (body ++ rest)
        (body.length + later) =
        ({} : Lexer).inCodeAt rest later := by
  have inside (text : Text) : (⟨0, false, .quoted quote⟩ : Lexer).inCodeAt text
      0 = false :=
    inCodeAt_zero _ _
  induction literal with
  | close =>
      have closes :
          (⟨0, false, .quoted quote⟩ : Lexer).step true (quote :: rest) =
            (.skip 1, {}) := by simp [step]
      have skips := inCodeAt_of_skip closes
      refine ⟨fun place within => ?_, fun later => ?_⟩
      · obtain rfl : place = 0 := by simpa using within
        exact inside _
      · rw [List.length_singleton, Nat.add_comm]
        exact skips later
  | @character head tail noQuote noEscape literal ih =>
      have stays : ¬(head = backslash ∧ quote ≠ backtick) := fun escape =>
        escape.2 (noEscape escape.1)
      have quoted : (⟨0, false, .quoted quote⟩ : Lexer).step true
          (head :: (tail ++ rest)) =
          (.skip 1, ⟨0, false, .quoted quote⟩) := by simp [step, noQuote, stays]
      have skips := inCodeAt_of_skip quoted
      refine ⟨fun place within => ?_, fun later => ?_⟩
      · cases place with
        | zero => exact inside _
        | succ place =>
            exact (skips place).trans (ih.1 place (by simpa using within))
      · rw [List.length_cons, Nat.add_right_comm]
        exact (skips _).trans (ih.2 later)
  | @escape escapes character tail literal ih =>
      have escaping : (⟨0, false, .quoted quote⟩ : Lexer).step true
          (backslash :: character :: (tail ++ rest)) =
            (.skip 1, ⟨0, false, .escaped quote⟩) := by
        simp [step, escapes, ne_backslash_of_isQuote opens]
      have escaped : (⟨0, false, .escaped quote⟩ : Lexer).step true
          (character :: (tail ++ rest)) =
          (.skip 1, ⟨0, false, .quoted quote⟩) := by simp [step]
      have first := inCodeAt_of_skip escaping
      have second := inCodeAt_of_skip escaped
      refine ⟨fun place within => ?_, fun later => ?_⟩
      · cases place with
        | zero => exact inside _
        | succ place =>
            refine (first place).trans ?_
            cases place with
            | zero => exact inCodeAt_zero _ _
            | succ place =>
                exact (second place).trans (ih.1 place (by simpa using within))
      · rw [List.length_cons, List.length_cons, Nat.add_right_comm,
          Nat.add_right_comm _ 1]
        exact (first _).trans ((second _).trans (ih.2 later))

end Lexer

/-- In front of a mark no comment begins in the code of the text, and code goes
on behind it. -/
theorem CodeText.inCodeAt (code : CodeText text)
    (isMark : mark = ';' ∨ mark = '$') (more : Text) :
    (∀ place < text.length,
      ({} : Lexer).inCodeAt (text ++ mark :: more) place = true →
        ¬commentMarker <+: (text ++ mark :: more).drop place) ∧
      ∀ later, ({} : Lexer).inCodeAt (text ++ mark :: more)
        (text.length + later) =
        ({} : Lexer).inCodeAt (mark :: more) later := by
  have noPart : mark ∉ ['-', ' ', '\t', '\r', '\n'] := by
    rcases isMark with rfl | rfl <;> decide
  have noStar : mark ≠ '*' := by rcases isMark with rfl | rfl <;> decide
  induction code with
  | nil =>
      exact ⟨fun place within => absurd within (Nat.not_lt_zero _),
        fun later => by simp⟩
  | @ordinary head tail noQuote noLineComment noOpening noClosing code ih =>
      have noOpeningNow : ¬commentMarker <+: head :: (tail ++ mark :: more) :=
        not_prefix_append noOpening fun empty front => by
          simp [noStar.symm] at front
      have noDashes : tail ++ mark :: more ≠ ['-'] := by
        intro same
        rcases List.append_eq_singleton_iff.mp same with ⟨-, last⟩ | ⟨-, none⟩
        · exact noPart (by simp [(List.cons.inj last).1])
        · exact absurd none (List.cons_ne_nil _ _)
      have skips := Lexer.inCodeAt_of_skip (Lexer.step_code noQuote
        (fun begins => noLineComment (begins.of_append noPart)) noDashes
          noOpeningNow)
      refine ⟨fun place within inCode => ?_, fun later => ?_⟩
      · cases place with
        | zero => exact noOpeningNow
        | succ place =>
            exact ih.1 place (by simpa using within)
              ((skips place).symm.trans inCode)
      · rw [List.length_cons, Nat.add_right_comm]
        exact (skips _).trans (ih.2 later)
  | @literal quote body tail opens literal code ih =>
      obtain ⟨inside, behind⟩ :=
        Lexer.inCodeAt_literal literal opens (tail ++ mark :: more)
      have opening :
          ({} : Lexer).step true (quote :: (body ++ (tail ++ mark :: more))) =
            (.skip 1, ⟨0, false, .quoted quote⟩) := by
        have visible : quote = singleQuote ∨ quote = doubleQuote ∨
            quote = backtick := by
          simpa [isQuote, or_assoc] using opens
        rcases visible with rfl | rfl | rfl <;> rfl
      have skips := Lexer.inCodeAt_of_skip opening
      rw [List.cons_append, List.append_assoc]
      refine ⟨fun place within inCode => ?_, fun later => ?_⟩
      · cases place with
        | zero =>
            intro front
            obtain ⟨rfl, -⟩ := List.cons_prefix_cons.mp front
            exact absurd opens (by decide)
        | succ place =>
            rw [skips] at inCode
            rcases Nat.lt_or_ge place body.length with inBody | beyond
            · rw [inside place inBody] at inCode
              exact absurd inCode Bool.false_ne_true
            · obtain ⟨later, rfl⟩ := Nat.exists_eq_add_of_le beyond
              rw [behind] at inCode
              have dropEq : (quote :: (body ++ (tail ++ mark :: more))).drop
                  (body.length + later + 1) =
                    (tail ++ mark :: more).drop later := by
                rw [List.drop_succ_cons, ← List.drop_drop, List.drop_left]
              rw [dropEq]
              refine ih.1 later ?_ inCode
              simp only [List.length_cons, List.length_append] at within
              omega
      · rw [List.length_cons, List.length_append, Nat.add_right_comm, skips,
          Nat.add_assoc, behind]
        exact ih.2 later

end SqlDump
