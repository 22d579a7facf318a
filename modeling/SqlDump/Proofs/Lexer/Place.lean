import SqlDump.Proofs.Lexer.Reading

/-!
# Lexical places

Every character of a text is read by one step, and the place of the character is
the pair of the classes in which this step begins and ends.  Where a text is cut
in code, the places behind the cut are those of a text that begins there.
-/

namespace SqlDump

inductive LexicalClass where
  | code
  | literal
  | lineComment
  | blockComment
  | guard
deriving DecidableEq, Repr

def LexicalClass.nested : LexicalClass → Bool
  | .blockComment => true
  | .guard => true
  | _ => false

namespace Lexer

/-- The classes in which the step that reads a character begins and ends. -/
structure Place where
  before : LexicalClass
  after : LexicalClass
deriving DecidableEq, Repr

namespace Place

/-- Delimiters belong to what they delimit. -/
def lexicalClass (place : Place) : LexicalClass :=
  if place.before = .code then place.after else place.before

def code : Place := ⟨.code, .code⟩

end Place

def lexicalClass (lexer : Lexer) : LexicalClass :=
  if lexer.depth ≠ 0 then if lexer.guarded then .guard else .blockComment
  else
    match lexer.lex with
    | .code => .code
    | .lineComment => .lineComment
    | .quoted _ => .literal
    | .escaped _ => .literal

/-- One place for every character. -/
def places (lexer : Lexer) : Text → List Place
  | [] => []
  | head :: tail =>
      List.replicate (lexer.taken (head :: tail))
          ⟨lexer.lexicalClass, (lexer.next (head :: tail)).lexicalClass⟩ ++
        (lexer.next (head :: tail)).places
          ((head :: tail).drop (lexer.taken (head :: tail)))
termination_by text => text.length
decreasing_by exact lexer.length_drop_taken_lt head tail

/-- A step ends behind the first `count` characters in code, or a step from code
to code goes on. -/
def inCodeAt (lexer : Lexer) : Text → Nat → Bool
  | _, 0 => lexer.atTopLevel
  | [], _ + 1 => false
  | head :: tail, count + 1 =>
      if lexer.taken (head :: tail) ≤ count + 1 then
        (lexer.next (head :: tail)).inCodeAt
          ((head :: tail).drop (lexer.taken (head :: tail)))
          (count + 1 - lexer.taken (head :: tail))
      else lexer.atTopLevel && (lexer.next (head :: tail)).atTopLevel
termination_by text => text.length
decreasing_by exact lexer.length_drop_taken_lt head tail

variable {lexer after : Lexer} {text rest : Text}

theorem lexicalClass_eq_code_iff : lexer.lexicalClass = .code ↔
    lexer.atTopLevel = true := by
  cases lexer with
  | mk depth guarded lex =>
      simp only [lexicalClass, atTopLevel, Bool.and_eq_true, beq_iff_eq]
      by_cases outside : depth = 0
      · subst outside
        cases lex <;> simp
      · cases guarded <;> simp [outside]

theorem taken_le (lexer : Lexer) (text : Text) :
    lexer.taken text ≤ text.length :=
  lexer.consumed_step_le true text

@[simp] theorem length_places (lexer : Lexer) (text : Text) :
    (lexer.places text).length = text.length := by
  fun_induction Lexer.places lexer text with
  | case1 => rfl
  | case2 lexer head tail ih =>
      have fits := lexer.taken_le (head :: tail)
      rw [List.length_append, List.length_replicate, ih, List.length_drop]
      omega

theorem getElem?_places_of_lt {head : Char} {tail : Text} {index : Nat}
    (inside : index < lexer.taken (head :: tail)) :
    (lexer.places (head :: tail))[index]? =
      some ⟨lexer.lexicalClass, (lexer.next (head :: tail)).lexicalClass⟩ := by
  rw [places, List.getElem?_append_left (by rwa [List.length_replicate]),
    List.getElem?_replicate_of_lt inside]

theorem getElem?_places_of_le {head : Char} {tail : Text} {index : Nat}
    (behind : lexer.taken (head :: tail) ≤ index) :
    (lexer.places (head :: tail))[index]? =
      ((lexer.next (head :: tail)).places
        ((head :: tail).drop (lexer.taken (head :: tail))))[index -
          lexer.taken (head :: tail)]? := by
  rw [places, List.getElem?_append_right (by rwa [List.length_replicate]),
    List.length_replicate]

theorem places_of_plain {head : Char} (tail : Text)
    (top : lexer.atTopLevel = true) (plain : head ∉ openers) :
    lexer.places (head :: tail) = .code :: lexer.places tail := by
  have stepEq : lexer.step true (head :: tail) = (.skip 1, lexer) :=
    step_of_plain tail top plain
  have inCode := lexicalClass_eq_code_iff.mpr top
  rw [places]
  simp only [taken, next, stepEq, Step.consumed, inCode]
  rfl

@[simp] theorem inCodeAt_zero (lexer : Lexer) (text : Text) :
    lexer.inCodeAt text 0 = lexer.atTopLevel := by
  cases text <;> rw [inCodeAt]

theorem inCodeAt_taken_add (lexer : Lexer) (head : Char) (tail : Text)
    (later : Nat) :
    lexer.inCodeAt (head :: tail) (lexer.taken (head :: tail) + later) =
      (lexer.next (head :: tail)).inCodeAt
        ((head :: tail).drop (lexer.taken (head :: tail))) later := by
  have positive := lexer.taken_pos head tail
  obtain ⟨count, countEq⟩ : ∃ count, lexer.taken (head :: tail) + later =
    count + 1 :=
    ⟨lexer.taken (head :: tail) + later - 1, by omega⟩
  rw [countEq, inCodeAt, if_pos (by omega), ← countEq, Nat.add_sub_cancel_left]

private theorem proper_next (proper : lexer.Proper) (head : Char)
    (tail : Text) :
    (lexer.next (head :: tail)).Proper :=
  (outcome_next lexer (List.cons_ne_nil head tail)).proper proper

theorem outcome_taken (lexer : Lexer) {input : Text} (nonempty : input ≠ []) :
    ∃ step after, lexer.taken input = step.consumed ∧ lexer.next input = after ∧
      Outcome lexer input step after :=
  ⟨_, _, rfl, rfl, outcome_next lexer nonempty⟩

section

variable {head : Char} {tail more : Text} {step : Step}

theorem places_append_of_step
    (stepEq : lexer.step true (head :: tail ++ more) = (step, after))
    (fits : step.consumed ≤ (head :: tail).length) :
    lexer.places (head :: tail ++ more) =
      List.replicate step.consumed ⟨lexer.lexicalClass, after.lexicalClass⟩ ++
        after.places ((head :: tail).drop step.consumed ++ more) := by
  rw [← List.drop_append_of_le_length fits]
  rw [List.cons_append] at stepEq ⊢
  rw [places, taken, next, stepEq]

theorem inCodeAt_append_of_step {count : Nat}
    (stepEq : lexer.step true (head :: tail ++ more) = (step, after))
    (fits : step.consumed ≤ (head :: tail).length) :
    lexer.inCodeAt (head :: tail ++ more) (count + 1) =
      if step.consumed ≤ count + 1 then
        after.inCodeAt ((head :: tail).drop step.consumed ++ more)
          (count + 1 - step.consumed)
      else lexer.atTopLevel && after.atTopLevel := by
  rw [← List.drop_append_of_le_length fits]
  rw [List.cons_append] at stepEq ⊢
  rw [inCodeAt, taken, next, stepEq]

end

/-- Only the marker of a guard without a digit goes from code to code in several
characters. -/
theorem marker_of_stays {head : Char} {tail : Text}
    (top : lexer.atTopLevel = true)
    (stays : (lexer.next (head :: tail)).atTopLevel = true)
    (several : 1 < lexer.taken (head :: tail)) :
    ∃ later, head :: tail = '/' :: '*' :: '!' :: later ∧
      lexer.taken (head :: tail) = 3 ∧
      lexer.next (head :: tail) = lexer := by
  obtain ⟨step, after, takenEq, nextEq, outcome⟩ :=
    lexer.outcome_taken (List.cons_ne_nil head tail)
  rw [takenEq] at several ⊢
  rw [nextEq] at stays ⊢
  generalize head :: tail = input at outcome ⊢
  simp only [atTopLevel, Bool.and_eq_true, beq_iff_eq] at top stays
  cases outcome with
  | character head tail => simp [Step.consumed] at several
  | dashes code tail => simp at stays
  | marker top tail => exact ⟨tail, rfl, rfl, rfl⟩
  | openGuard top digits tail nonempty allDigits => simp [enterGuard] at stays
  | openPlain code tail => simp [openOne] at stays
  | close inside tail => exact absurd top.1 (Nat.ne_of_gt inside)

private theorem plain_of_stays {head : Char} {tail : Text} {count : Nat}
    (top : lexer.atTopLevel = true)
    (stays : (lexer.next (head :: tail)).atTopLevel = true)
    (inside : count + 1 < lexer.taken (head :: tail)) :
    ∃ plain, (∀ character ∈ plain, character ∉ openers) ∧
      count + 1 + plain.length = lexer.taken (head :: tail) ∧
      (head :: tail).drop (count + 1) =
        plain ++ (head :: tail).drop (lexer.taken (head :: tail)) ∧
      lexer.next (head :: tail) = lexer := by
  obtain ⟨later, inputEq, three, nextEq⟩ := marker_of_stays top stays (by omega)
  have star : '*' ∉ openers := by decide
  have mark : '!' ∉ openers := by decide
  rw [three] at inside ⊢
  rw [inputEq] at nextEq ⊢
  obtain rfl | rfl : count = 0 ∨ count = 1 := by omega
  · exact ⟨['*', '!'], by simp [star, mark], rfl, rfl, nextEq⟩
  · exact ⟨['!'], by simp [mark], rfl, rfl, nextEq⟩

theorem places_plains {plain : Text} (rest : Text)
    (top : lexer.atTopLevel = true)
    (noOpener : ∀ character ∈ plain, character ∉ openers) :
    lexer.places (plain ++ rest) = List.replicate plain.length .code ++
      lexer.places rest := by
  induction plain with
  | nil => rfl
  | cons head tail ih =>
      rw [List.cons_append, places_of_plain _ top (noOpener head (.head tail)),
        ih fun character member => noOpener character (.tail head member)]
      rfl

/-- A cut in code is here, behind a step, or inside a step from code to code,
with plain characters behind it. -/
inductive CodeCut : Lexer → Text → Nat → Prop where
  | here (text : Text) : CodeCut {} text 0
  | behind {lexer : Lexer} {head : Char} {tail : Text} {later : Nat}
      (cut : CodeCut (lexer.next (head :: tail))
        ((head :: tail).drop (lexer.taken (head :: tail))) later) :
      CodeCut lexer (head :: tail) (lexer.taken (head :: tail) + later)
  | inside {head : Char} {tail plain : Text} {count : Nat}
      (noOpener : ∀ character ∈ plain, character ∉ openers)
      (length : count + 1 + plain.length = ({} : Lexer).taken (head :: tail))
      (drop : (head :: tail).drop (count + 1) = plain ++ (head :: tail).drop
          (({} : Lexer).taken (head :: tail)))
      (stays : ({} : Lexer).next (head :: tail) = {}) :
      CodeCut {} (head :: tail) (count + 1)

theorem codeCut_of_inCodeAt {count : Nat} (proper : lexer.Proper)
    (inCode : lexer.inCodeAt text count = true) : CodeCut lexer text count := by
  fun_induction Lexer.inCodeAt lexer text count with
  | case1 lexer text =>
      obtain rfl := eq_start_of_atTopLevel proper inCode
      exact .here text
  | case2 lexer count => exact absurd inCode Bool.false_ne_true
  | case3 lexer head tail count within ih =>
      have cut :=
        CodeCut.behind (ih (lexer.proper_next proper head tail) inCode)
      rwa [Nat.add_sub_cancel' within] at cut
  | case4 lexer head tail count beyond =>
      simp only [Bool.and_eq_true] at inCode
      obtain ⟨plain, noOpener, lengthEq, dropEq, nextEq⟩ :=
        plain_of_stays inCode.1 inCode.2 (Nat.lt_of_not_le beyond)
      obtain rfl := eq_start_of_atTopLevel proper inCode.1
      exact .inside noOpener lengthEq dropEq nextEq

/-- Where a text is cut in code, what is behind the cut has the places of a text
of its own. -/
theorem places_drop {count : Nat} (proper : lexer.Proper)
    (inCode : lexer.inCodeAt text count = true) :
    (lexer.places text).drop count = ({} : Lexer).places (text.drop count) := by
  have cut := codeCut_of_inCodeAt proper inCode
  clear proper inCode
  induction cut with
  | here text => rfl
  | @behind lexer head tail later cut ih =>
      rw [places, List.drop_append, List.length_replicate,
        Nat.add_sub_cancel_left,
        List.drop_eq_nil_of_le (by rw [List.length_replicate]; omega),
        List.nil_append, ih, List.drop_drop]
  | @inside head tail plain count noOpener lengthEq dropEq nextEq =>
      have inCode : ({} : Lexer).lexicalClass = .code := rfl
      rw [dropEq, places_plains _ atTopLevel_start noOpener, places, nextEq,
        inCode,
        List.drop_append_of_le_length (by rw [List.length_replicate]; omega),
        List.drop_replicate, ← lengthEq, Nat.add_sub_cancel_left]
      rfl

theorem inCodeAt_of_skip {head : Char} {tail : Text}
    (stepEq : lexer.step true (head :: tail) = (.skip 1, after)) (count : Nat) :
    lexer.inCodeAt (head :: tail) (count + 1) = after.inCodeAt tail count := by
  rw [inCodeAt]
  simp [taken, next, stepEq, Step.consumed]

theorem inCodeAt_of_plain {head : Char} (tail : Text) (count : Nat)
    (top : lexer.atTopLevel = true) (plain : head ∉ openers) :
    lexer.inCodeAt (head :: tail) (count + 1) = lexer.inCodeAt tail count :=
  inCodeAt_of_skip (step_of_plain tail top plain) count

theorem inCodeAt_plains {plain : Text} (rest : Text)
    (top : lexer.atTopLevel = true)
    (noOpener : ∀ character ∈ plain, character ∉ openers) (more : Nat) :
    lexer.inCodeAt (plain ++ rest) (plain.length + more) =
      lexer.inCodeAt rest more := by
  induction plain with
  | nil => rw [List.nil_append, List.length_nil, Nat.zero_add]
  | cons head tail ih =>
      rw [List.cons_append, List.length_cons, Nat.add_right_comm,
        inCodeAt_of_plain _ _ top (noOpener head (.head tail)),
        ih fun character member => noOpener character (.tail head member)]

private theorem inCodeAt_inside_plains {plain : Text} {count : Nat}
    (rest : Text) (top : lexer.atTopLevel = true)
    (noOpener : ∀ character ∈ plain, character ∉ openers)
    (within : count ≤ plain.length) :
    lexer.inCodeAt (plain ++ rest) count = true := by
  have front : ∀ character ∈ plain.take count, character ∉ openers :=
    fun character member => noOpener character (List.mem_of_mem_take member)
  have skips := inCodeAt_plains (plain.drop count ++ rest) top front 0
  rw [← List.append_assoc, List.take_append_drop, List.length_take,
    Nat.min_eq_left within, Nat.add_zero, inCodeAt_zero] at skips
  exact skips.trans top

/-- Behind a cut in code the lexer goes on as if the text began there. -/
theorem inCodeAt_add {count : Nat} (more : Nat) (proper : lexer.Proper)
    (inCode : lexer.inCodeAt text count = true) :
    lexer.inCodeAt text (count + more) = ({} : Lexer).inCodeAt (text.drop count)
      more := by
  have cut := codeCut_of_inCodeAt proper inCode
  clear proper inCode
  induction cut with
  | here text => rw [Nat.zero_add, List.drop_zero]
  | @behind lexer head tail later cut ih =>
      rw [Nat.add_assoc, inCodeAt_taken_add, ih, List.drop_drop]
  | @inside head tail plain count noOpener lengthEq dropEq nextEq =>
      rw [dropEq]
      rcases Nat.lt_or_ge more plain.length with within | beyond
      · rw [inCodeAt_inside_plains _ atTopLevel_start noOpener
          (Nat.le_of_lt within),
          Nat.add_right_comm count 1 more, inCodeAt, if_neg (by omega), nextEq]
        rfl
      · obtain ⟨further, rfl⟩ := Nat.exists_eq_add_of_le beyond
        rw [inCodeAt_plains _ atTopLevel_start noOpener, ← Nat.add_assoc,
          lengthEq, inCodeAt_taken_add, nextEq]

theorem Reads.inCodeAt {steps : List Step}
    (reads : Reads lexer text steps after rest) :
    lexer.inCodeAt text (text.length - rest.length) = after.atTopLevel := by
  induction reads with
  | done lexer rest => rw [Nat.sub_self, inCodeAt_zero]
  | @step lexer after input rest steps nonempty behind ih =>
      obtain ⟨piece, split⟩ := behind.suffix
      have shorter := congrArg List.length split
      rw [List.length_drop, List.length_append] at shorter
      rw [List.length_drop] at ih
      cases input with
      | nil => exact absurd rfl nonempty
      | cons head tail =>
          have progress := lexer.taken_pos head tail
          have fits := lexer.taken_le (head :: tail)
          obtain ⟨count, countEq⟩ :
              ∃ count, (head :: tail).length - rest.length = count + 1 :=
            ⟨(head :: tail).length - rest.length - 1, by omega⟩
          rw [countEq, Lexer.inCodeAt, if_pos (by omega), ← ih]
          congr 1
          omega

theorem Reads.inCodeAt_append {piece : Text} {steps : List Step}
    (reads : Reads lexer (piece ++ rest) steps after rest) :
    lexer.inCodeAt (piece ++ rest) piece.length = after.atTopLevel := by
  have atRest := reads.inCodeAt
  rwa [List.length_append, Nat.add_sub_cancel] at atRest

theorem Reads.places_drop {piece : Text} {steps : List Step}
    (reads : Reads lexer (piece ++ rest) steps after rest) :
    (lexer.places (piece ++ rest)).drop piece.length = after.places rest := by
  generalize whole : piece ++ rest = text at reads
  induction reads generalizing piece with
  | done lexer rest =>
      obtain rfl : piece = [] := List.append_left_eq_self.mp whole
      rfl
  | @step lexer after input rest steps nonempty behind ih =>
      obtain ⟨later, split⟩ := behind.suffix
      have lengths := congrArg List.length split
      have wholeLengths := congrArg List.length whole
      rw [List.length_drop, List.length_append] at lengths
      rw [List.length_append] at wholeLengths
      cases input with
      | nil => exact absurd rfl nonempty
      | cons head tail =>
          have fits := lexer.taken_le (head :: tail)
          have lengthEq : piece.length = lexer.taken (head :: tail) +
              later.length := by omega
          rw [places, lengthEq, List.drop_append, List.length_replicate,
            Nat.add_sub_cancel_left,
            List.drop_eq_nil_of_le (by rw [List.length_replicate]; omega),
            List.nil_append, ih split.symm]

end Lexer

end SqlDump
