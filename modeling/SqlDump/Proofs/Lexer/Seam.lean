import Mathlib.Data.List.Chain
import SqlDump.Proofs.Lexer.Place
import SqlDump.Text.Word

/-!
# Seams between code and the rest

A text with the place of each of its characters.  Where code begins or ends, the
character on the other side is a quote, a mark or a line break, so no word
crosses a seam.
-/

namespace SqlDump

namespace Lexer

variable {lexer after : Lexer} {input text : Text} {taken : Step} {head : Char}
  {tail : Text}

/-- The quote that ends the open literal is one of the three quotes. -/
def Quoting (lexer : Lexer) : Prop :=
  ∀ quote, lexer.lex = .quoted quote ∨ lexer.lex = .escaped quote →
  isQuote quote = true

theorem quoting_start : ({} : Lexer).Quoting := by
  intro quote literal
  simp at literal

theorem quoting_of_plain
    (plain : lexer.lex = .code ∨ lexer.lex = .lineComment) :
    lexer.Quoting := by
  intro quote literal
  rcases plain with lex | lex <;> simp [lex] at literal

theorem Quoting.of_lex (quoting : lexer.Quoting)
    (same : after.lex = lexer.lex) :
    after.Quoting := by
  intro quote literal
  rw [same] at literal
  exact quoting quote literal

theorem Quoting.behind (quoting : lexer.Quoting) (head : Char) :
    (lexer.behind head).Quoting := by
  intro quote literal
  simp only [Lexer.behind, lexBehind] at literal
  split at literal
  · next open_ lex =>
      have opened := quoting open_ (.inl lex)
      split at literal
      · simp at literal
      · split at literal
        · simp only [reduceCtorEq, Lex.escaped.injEq, false_or] at literal
          exact literal ▸ opened
        · simp only [Lex.quoted.injEq, reduceCtorEq, or_false] at literal
          exact literal ▸ opened
  · next open_ lex =>
      simp only [Lex.quoted.injEq, reduceCtorEq, or_false] at literal
      exact literal ▸ quoting open_ (.inr lex)
  · split at literal <;> simp at literal
  · split at literal
    · split at literal
      · next quote =>
          simp only [Lex.quoted.injEq, reduceCtorEq, or_false] at literal
          exact literal ▸ quote
      · split at literal <;> simp at literal
    · simp at literal

theorem Outcome.quoting (outcome : Outcome lexer input taken after)
    (quoting : lexer.Quoting) :
    after.Quoting := by
  cases outcome with
  | character head tail => exact quoting.behind head
  | dashes code tail => exact quoting_of_plain (.inr rfl)
  | marker top tail => exact quoting
  | openGuard top digits tail nonempty allDigits => exact quoting
  | openPlain code tail => exact quoting
  | close inside tail => exact quoting_of_plain (.inl rfl)

/-- A character and its place. -/
abbrev Marked := Place × Char

def marks (lexer : Lexer) (text : Text) : List Marked :=
  (lexer.places text).zip text

/-- Neighbours of which only one is code are parted by a character that belongs
to no word. -/
def Seam (left right : Marked) : Prop :=
  (left.1 = .code → right.1 ≠ .code → isWord right.2 = false) ∧
    (left.1 ≠ .code → right.1 = .code → isWord left.2 = false)

variable {left right : Marked}

private theorem seam_of_same (same : left.1 = right.1) : Seam left right :=
  ⟨fun code notCode => absurd (same ▸ code) notCode,
    fun notCode code => absurd (same.symm ▸ code) notCode⟩

theorem map_snd_marks (lexer : Lexer) (text : Text) :
    (lexer.marks text).map Prod.snd = text :=
  List.map_snd_zip (Nat.le_of_eq (length_places lexer text).symm)

private theorem zip_replicate (place : Place) (text : Text) :
    (List.replicate text.length place).zip text =
      text.map fun character => (place, character) := by
  induction text with
  | nil => rfl
  | cons head tail ih =>
      rw [List.length_cons, List.replicate_succ, List.zip_cons_cons, ih]
      rfl

def stepPlace (lexer : Lexer) (text : Text) : Place :=
  ⟨lexer.lexicalClass, (lexer.next text).lexicalClass⟩

theorem marks_cons (lexer : Lexer) (head : Char) (tail : Text) :
    lexer.marks (head :: tail) =
      ((head :: tail).take (lexer.taken (head :: tail))).map
          (fun character => (lexer.stepPlace (head :: tail), character)) ++
        (lexer.next (head :: tail)).marks
          ((head :: tail).drop (lexer.taken (head :: tail))) := by
  have lengthEq : ((head :: tail).take (lexer.taken (head :: tail))).length =
      lexer.taken (head :: tail) := List.length_take_of_le (lexer.taken_le _)
  have one := zip_replicate (lexer.stepPlace (head :: tail))
    ((head :: tail).take (lexer.taken (head :: tail)))
  rw [lengthEq] at one
  rw [← one, marks, places, marks, ← List.zip_append, List.take_append_drop]
  · rfl
  · rw [List.length_replicate, lengthEq]

private theorem head?_marks (lexer : Lexer) (head : Char) (tail : Text) :
    (lexer.marks (head :: tail)).head? =
      some (lexer.stepPlace (head :: tail), head) := by
  obtain ⟨count, takenEq⟩ := Nat.exists_eq_add_of_le (lexer.taken_pos head tail)
  rw [marks_cons, takenEq, Nat.add_comm, List.take_succ_cons]
  rfl

theorem not_isWord_of_mem_openers {character : Char}
    (opener : character ∈ openers) :
    isWord character = false := by
  have none : openers.all (fun opener => !isWord opener) = true := by decide
  simpa using List.all_eq_true.mp none character opener

private theorem not_isWord_head (top : lexer.atTopLevel = true)
    (leaves : (lexer.next (head :: tail)).atTopLevel = false) :
    isWord head = false := by
  by_cases opener : head ∈ openers
  · exact not_isWord_of_mem_openers opener
  · have stays : lexer.next (head :: tail) = lexer :=
      congrArg Prod.snd (step_of_plain tail top opener)
    rw [stays, top] at leaves
    exact absurd leaves (by decide)

private theorem not_isWord_of_isQuote (quote : isQuote head = true) :
    isWord head = false := by
  simp only [isQuote, Bool.or_eq_true, beq_iff_eq] at quote
  rcases quote with (rfl | rfl) | rfl <;> decide

private theorem not_isWord_last (quoting : lexer.Quoting) {front : Text}
    {last : Char}
    (taken : (head :: tail).take (lexer.taken (head :: tail)) = front ++ [last])
    (outside : lexer.atTopLevel = false)
    (enters : (lexer.next (head :: tail)).atTopLevel = true) :
    isWord last = false := by
  obtain ⟨step, after, takenEq, nextEq, outcome⟩ :=
    outcome_taken lexer (List.cons_ne_nil head tail)
  rw [takenEq] at taken
  rw [nextEq] at enters
  generalize head :: tail = input at taken outcome
  have lastEq := congrArg List.getLast? taken
  rw [List.getLast?_concat] at lastEq
  cases outcome with
  | character head tail noOpening =>
      obtain rfl : head = last := by simpa [Step.consumed] using lastEq
      obtain ⟨level, code⟩ : lexer.depth = 0 ∧
        lexer.lexBehind head = .code := by
        simpa [atTopLevel, behind] using enters
      cases lex : lexer.lex with
      | code => simp [atTopLevel, level, lex] at outside
      | quoted quote =>
          have closes : head = quote := by
            apply Decidable.byContradiction
            intro other
            simp only [lexBehind, lex, if_neg other] at code
            split at code <;> simp at code
          rw [closes]
          exact not_isWord_of_isQuote (quoting quote (.inl lex))
      | escaped quote => simp [lexBehind, lex] at code
      | lineComment =>
          have closes : head = '\n' := by
            apply Decidable.byContradiction
            intro other
            simp [lexBehind, lex, if_neg other] at code
          rw [closes]
          rfl
  | dashes code tail noDash => simp [atTopLevel] at enters
  | marker top => rw [top] at outside; simp at outside
  | openGuard top digits tail nonempty allDigits =>
      simp [atTopLevel, enterGuard] at enters
  | openPlain code tail noMark => simp [atTopLevel, openOne] at enters
  | close inside tail =>
      obtain rfl : '/' = last := by simpa [Step.consumed] using lastEq
      rfl

theorem stepPlace_eq_code_iff : lexer.stepPlace input = .code ↔
    lexer.atTopLevel = true ∧ (lexer.next input).atTopLevel = true := by
  rw [stepPlace, Place.code, Place.mk.injEq, lexicalClass_eq_code_iff,
    lexicalClass_eq_code_iff]

/-- The characters of one step have the same place, and two steps meet at a
seam. -/
theorem isChain_marks (quoting : lexer.Quoting) (text : Text) :
    List.IsChain Seam (lexer.marks text) := by
  fun_induction places lexer text with
  | case1 lexer => simp [marks]
  | case2 lexer head tail ih =>
      obtain ⟨step, after, -, nextEq, outcome⟩ :=
        outcome_taken lexer (List.cons_ne_nil head tail)
      have quotingNext : (lexer.next (head :: tail)).Quoting :=
        nextEq ▸ outcome.quoting quoting
      rw [marks_cons, List.isChain_append]
      refine ⟨?_, ih quotingNext, ?_⟩
      · apply List.Pairwise.isChain
        apply List.pairwise_of_forall_mem_list
        intro left leftMember right rightMember
        obtain ⟨_, -, rfl⟩ := List.mem_map.mp leftMember
        obtain ⟨_, -, rfl⟩ := List.mem_map.mp rightMember
        exact seam_of_same rfl
      · intro left leftLast right rightFirst
        rw [List.getLast?_map] at leftLast
        obtain ⟨last, lastEq, rfl⟩ := Option.map_eq_some_iff.mp leftLast
        obtain ⟨front, takenEq⟩ := List.getLast?_eq_some_iff.mp lastEq
        cases dropped : (head :: tail).drop (lexer.taken (head :: tail)) with
        | nil => simp [dropped, marks] at rightFirst
        | cons next later =>
            rw [dropped, head?_marks] at rightFirst
            obtain rfl := Option.some.inj rightFirst
            constructor
            · intro code notCode
              have inner := (stepPlace_eq_code_iff.mp code).2
              have leaves :
                  ((lexer.next (head :: tail)).next
                    (next :: later)).atTopLevel = false :=
                Bool.eq_false_iff.mpr fun top =>
                  notCode (stepPlace_eq_code_iff.mpr ⟨inner, top⟩)
              exact not_isWord_head inner leaves
            · intro notCode code
              have inner := (stepPlace_eq_code_iff.mp code).1
              have outside : lexer.atTopLevel = false :=
                Bool.eq_false_iff.mpr fun top =>
                  notCode (stepPlace_eq_code_iff.mpr ⟨top, inner⟩)
              exact not_isWord_last quoting takenEq outside inner

end Lexer

end SqlDump
