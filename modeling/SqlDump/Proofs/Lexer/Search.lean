import SqlDump.Lexer.TopLevel
import SqlDump.Proofs.Lexer.Separator
import SqlDump.Proofs.Text.Word

/-!
# Searches in code

The searches for a character in code stop at every place in code where it
stands: only markers are read in one step, and none of the characters searched
for belongs to a marker.  So the first semicolon that a search finds is the
first one in code, and the parenthesis that closes a list is the first one in
code behind which as many parentheses have closed as have opened.
-/

namespace SqlDump

namespace Lexer

/-- A character that no opener and no marker contains. -/
structure PlainTarget (target : Char) : Prop where
  noOpener : target ∉ openers
  noMark : target ≠ '*' ∧ target ≠ '!'

theorem plainTarget_semicolon : PlainTarget ';' := ⟨by decide, by decide⟩

theorem plainTarget_opening : PlainTarget '(' := ⟨by decide, by decide⟩

theorem plainTarget_closing : PlainTarget ')' := ⟨by decide, by decide⟩

/-- The character stands in code behind `count` others. -/
def StandsAt (lexer : Lexer) (target : Char) (text : Text) (count : Nat) :
    Bool :=
  lexer.inCodeAt text count && text[count]? == some target

variable {lexer : Lexer} {target head : Char} {text tail : Text} {count : Nat}

theorem standsAt_iff : lexer.StandsAt target text count = true ↔
    lexer.inCodeAt text count = true ∧ text[count]? = some target := by
  rw [StandsAt, Bool.and_eq_true, beq_iff_eq]

theorem length_of_standsAt (stands : lexer.StandsAt target text count = true) :
    count < text.length := by
  obtain ⟨inBounds, -⟩ :=
    List.getElem?_eq_some_iff.mp (standsAt_iff.mp stands).2
  exact inBounds

theorem standsAt_zero : lexer.StandsAt target (head :: tail) 0 =
    (lexer.atTopLevel && head == target) := by
  simp [StandsAt]

theorem standsAt_taken_add (target : Char) (head : Char) (tail : Text)
    (later : Nat) :
    lexer.StandsAt target (head :: tail) (lexer.taken (head :: tail) + later) =
      (lexer.next (head :: tail)).StandsAt target
        ((head :: tail).drop (lexer.taken (head :: tail))) later := by
  rw [StandsAt, StandsAt, inCodeAt_taken_add, List.getElem?_drop]

theorem not_standsAt_inside (plain : PlainTarget target) (positive : 0 < count)
    (inside : count < lexer.taken (head :: tail)) :
    lexer.StandsAt target (head :: tail) count = false := by
  rw [Bool.eq_false_iff]
  intro stands
  obtain ⟨inCode, here⟩ := standsAt_iff.mp stands
  obtain ⟨earlier, rfl⟩ := Nat.exists_eq_succ_of_ne_zero (Nat.ne_of_gt positive)
  rw [inCodeAt, if_neg (Nat.not_le_of_lt inside), Bool.and_eq_true] at inCode
  obtain ⟨later, split, three, -⟩ :=
    marker_of_stays inCode.1 inCode.2 (by omega)
  rw [three] at inside
  rw [split] at here
  obtain rfl | rfl : earlier = 0 ∨ earlier = 1 := by omega
  · exact plain.noMark.1 (Option.some.inj here).symm
  · exact plain.noMark.2 (Option.some.inj here).symm

/-- The characters that make two dashes in front of them begin a comment, as the
end of the text does. -/
def lineBlanks : List Char := [' ', '\t', '\r', '\n']

variable {blank : Char}

theorem separator_lineBlank (isBlank : blank ∈ lineBlanks) :
    Separator blank := by
  have each :
      lineBlanks.all (fun blank => !(['-', '*', '/', '!'].contains blank) &&
      !blank.isDigit) = true := by decide
  have one := List.all_eq_true.mp each blank isBlank
  rw [Bool.and_eq_true, Bool.not_eq_true', Bool.not_eq_true',
    List.contains_eq_mem, decide_eq_false_iff_not] at one
  exact ⟨one.1, one.2⟩

/-- A blank decides as the end of the text does. -/
theorem step_before_blank (isBlank : blank ∈ lineBlanks) (nonempty : text ≠ [])
    (rest : Text) :
    lexer.step true (text ++ blank :: rest) = lexer.step true text := by
  obtain ⟨noMark, noDigit⟩ := separator_lineBlank isBlank
  simp only [List.mem_cons, List.not_mem_nil, or_false, not_or] at noMark
  by_cases waits : (lexer.step false text).1 = .needMore
  · cases waits_of_needMore nonempty waits with
    | star inside => simp [step, stepPlain, stepStar, noMark]
    | slash code => simp [step, stepPlain, stepSlash, noMark]
    | opening top => simp [step, stepPlain, stepSlash, stepMarker, noMark]
    | marker top digits allDigits =>
        have digitsEq : (digits ++ blank :: rest).takeWhile Char.isDigit =
            digits.takeWhile Char.isDigit :=
          (Text.takeWhile_before noDigit digits rest).1
        simp [step, stepPlain, stepSlash, stepMarker, digitsEq]
    | dash code => simp [step, stepPlain, stepDash, noMark]
    | dashes code =>
        have third : blank = ' ' ∨ blank = '\t' ∨ blank = '\r' ∨
            blank = '\n' := by
          simpa [lineBlanks] using isBlank
        simp [step, stepPlain, stepDash, third]
  · rw [step_append true _ waits, step_true_of_decided waits]

theorem inCodeAt_before_blank (isBlank : blank ∈ lineBlanks) (lexer : Lexer)
    (text rest : Text) {count : Nat} (within : count ≤ text.length) :
    lexer.inCodeAt (text ++ blank :: rest) count =
      lexer.inCodeAt text count := by
  induction lexer, text using separator_induction (separator_lineBlank isBlank)
      generalizing count with
  | nil lexer =>
      rw [Nat.le_zero.mp within, inCodeAt_zero, inCodeAt_zero]
  | step lexer head tail step after progress fits stepEq ih =>
      have stepText : lexer.step true (head :: tail) = (step, after) := by
        rw [← step_before_blank isBlank (List.cons_ne_nil head tail) rest,
          stepEq rest]
      have nextEq : lexer.next (head :: tail) = after :=
        congrArg Prod.snd stepText
      have takenEq : lexer.taken (head :: tail) = step.consumed :=
        congrArg (fun result => result.1.consumed) stepText
      cases count with
      | zero => rw [inCodeAt_zero, inCodeAt_zero]
      | succ count =>
          rw [inCodeAt_append_of_step (stepEq rest) fits, inCodeAt,
            nextEq, takenEq]
          split
          · apply ih
            rw [List.length_drop]
            omega
          · rfl

theorem standsAt_before_break (lexer : Lexer) (target : Char) (text rest : Text)
    {count : Nat} (within : count < text.length) :
    lexer.StandsAt target (text ++ '\n' :: rest) count =
      lexer.StandsAt target text count := by
  rw [StandsAt, StandsAt,
    inCodeAt_before_blank (by decide) lexer text rest (Nat.le_of_lt within),
    List.getElem?_append_left within]

theorem find?_eq_some_iff (plain : PlainTarget target) :
    lexer.find? target text = some count ↔
      lexer.StandsAt target text count = true ∧
        ∀ earlier < count, lexer.StandsAt target text earlier = false := by
  fun_induction Lexer.find? target lexer text generalizing count with
  | case1 lexer => simp [StandsAt]
  | case2 lexer head tail here =>
      have first : lexer.StandsAt target (head :: tail) 0 = true :=
        standsAt_zero.trans here
      rw [Option.some.injEq]
      constructor
      · rintro rfl
        exact ⟨first, by simp⟩
      · rintro ⟨-, none⟩
        rcases Nat.eq_zero_or_pos count with rfl | positive
        · rfl
        · exact absurd first (by rw [none 0 positive]; exact Bool.false_ne_true)
  | case3 lexer head tail elsewhere ih =>
      have noneHere : ∀ earlier < lexer.taken (head :: tail),
          lexer.StandsAt target (head :: tail) earlier = false := by
        intro earlier inside
        rcases Nat.eq_zero_or_pos earlier with rfl | positive
        · rw [standsAt_zero]
          exact Bool.eq_false_iff.mpr elsewhere
        · exact not_standsAt_inside plain positive inside
      simp only [Option.map_eq_some_iff, ih]
      constructor
      · rintro ⟨later, ⟨stands, first⟩, rfl⟩
        refine ⟨(standsAt_taken_add target head tail later).trans stands, ?_⟩
        intro earlier before
        rcases Nat.lt_or_ge earlier (lexer.taken (head :: tail)) with
            inside | outside
        · exact noneHere earlier inside
        · obtain ⟨more, rfl⟩ := Nat.exists_eq_add_of_le outside
          rw [standsAt_taken_add]
          exact first more (by omega)
      · rintro ⟨stands, first⟩
        have outside : lexer.taken (head :: tail) ≤ count := by
          apply Nat.le_of_not_lt
          intro inside
          rw [noneHere count inside] at stands
          exact Bool.false_ne_true stands
        obtain ⟨later, rfl⟩ := Nat.exists_eq_add_of_le outside
        refine ⟨later,
          ⟨(standsAt_taken_add target head tail later).symm.trans stands,
          ?_⟩, rfl⟩
        intro earlier before
        rw [← standsAt_taken_add]
        exact first _ (Nat.add_lt_add_left before _)

theorem not_standsAt_of_find?_eq_none (plain : PlainTarget target)
    (missing : lexer.find? target text = none) (count : Nat) :
    lexer.StandsAt target text count = false := by
  induction count using Nat.strongRecOn with
  | ind count ih =>
      rw [Bool.eq_false_iff]
      intro stands
      have found := (find?_eq_some_iff plain).mpr ⟨stands, ih⟩
      rw [missing] at found
      exact absurd found (Option.some_ne_none count).symm

/-- How often the character stands in code among the first `count`
characters. -/
def codeCount (lexer : Lexer) (target : Char) (text : Text) (count : Nat) :
    Nat :=
  (List.range count).countP fun place => lexer.StandsAt target text place

theorem codeCount_zero : lexer.codeCount target text 0 = 0 := rfl

theorem codeCount_inside (plain : PlainTarget target) (positive : 0 < count)
    (inside : count ≤ lexer.taken (head :: tail)) :
    lexer.codeCount target (head :: tail) count =
      if lexer.atTopLevel && head == target then 1 else 0 := by
  obtain ⟨others, rfl⟩ := Nat.exists_eq_succ_of_ne_zero (Nat.ne_of_gt positive)
  have none : (List.range others).countP
      ((fun place => lexer.StandsAt target (head :: tail) place) ∘ Nat.succ) =
        0 := by
    refine List.countP_eq_zero.mpr fun place member => ?_
    have before := List.mem_range.mp member
    rw [Function.comp_apply,
      not_standsAt_inside plain (Nat.succ_pos place) (by omega)]
    exact Bool.false_ne_true
  rw [codeCount, List.range_succ_eq_map, List.countP_cons, List.countP_map,
    none, standsAt_zero, Nat.zero_add]

theorem codeCount_taken_add (lexer : Lexer) (plain : PlainTarget target)
    (head : Char) (tail : Text) (later : Nat) :
    lexer.codeCount target (head :: tail) (lexer.taken (head :: tail) + later) =
      (if lexer.atTopLevel && head == target then 1 else 0) +
        (lexer.next (head :: tail)).codeCount target
          ((head :: tail).drop (lexer.taken (head :: tail))) later := by
  have behind : ((List.range later).map (lexer.taken (head :: tail) + ·)).countP
      (fun place => lexer.StandsAt target (head :: tail) place) =
        (lexer.next (head :: tail)).codeCount target
          ((head :: tail).drop (lexer.taken (head :: tail))) later := by
    rw [List.countP_map, codeCount]
    congr 1
    funext place
    exact standsAt_taken_add target head tail place
  rw [codeCount, List.range_add, List.countP_append, behind]
  congr 1
  exact codeCount_inside plain (lexer.taken_pos head tail) (Nat.le_refl _)

/-- The first parenthesis in code that closes the outermost of `depth + 1` open
ones. -/
structure ClosesAt (lexer : Lexer) (depth : Nat) (text : Text) (count : Nat) :
    Prop where
  stands : lexer.StandsAt ')' text count = true
  balanced : lexer.codeCount '(' text count + depth =
    lexer.codeCount ')' text count
  inside : ∀ earlier ≤ count,
    lexer.codeCount ')' text earlier ≤ lexer.codeCount '(' text earlier + depth

/-- A step opens a parenthesis, closes one or does neither. -/
theorem ClosesAt.taken_add_iff {depth inner : Nat} (head : Char) (tail : Text)
    (later : Nat)
    (innerEq : inner + (if lexer.atTopLevel && head == ')' then 1 else 0) =
        depth + if lexer.atTopLevel && head == '(' then 1 else 0) :
    lexer.ClosesAt depth (head :: tail) (lexer.taken (head :: tail) + later) ↔
      (lexer.next (head :: tail)).ClosesAt inner
        ((head :: tail).drop (lexer.taken (head :: tail))) later := by
  have progress := lexer.taken_pos head tail
  have opened := lexer.codeCount_taken_add plainTarget_opening head tail
  have closed := lexer.codeCount_taken_add plainTarget_closing head tail
  constructor
  · rintro ⟨stands, balanced, inside⟩
    rw [opened, closed] at balanced
    refine ⟨(standsAt_taken_add ')' head tail later).symm.trans stands,
      by omega, ?_⟩
    intro earlier before
    have within := inside _ (Nat.add_le_add_left before _)
    rw [opened, closed] at within
    omega
  · rintro ⟨stands, balanced, inside⟩
    refine ⟨(standsAt_taken_add ')' head tail later).trans stands, ?_, ?_⟩
    · rw [opened, closed]
      omega
    · intro earlier before
      rcases Nat.lt_or_ge (lexer.taken (head :: tail)) earlier with
          outside | within
      · obtain ⟨more, rfl⟩ := Nat.exists_eq_add_of_le (Nat.le_of_lt outside)
        have later := inside more (by omega)
        rw [opened, closed]
        omega
      · rcases Nat.eq_zero_or_pos earlier with rfl | positive
        · rw [codeCount_zero, codeCount_zero]
          exact Nat.zero_le _
        · rw [codeCount_inside plainTarget_closing positive within,
            codeCount_inside plainTarget_opening positive within]
          omega

/-- Inside the first step no parenthesis closes the outermost one but the first
character. -/
theorem ClosesAt.inside_taken {depth : Nat}
    (closes : lexer.ClosesAt depth (head :: tail) count)
    (inside : count < lexer.taken (head :: tail)) :
    count = 0 ∧ depth = 0 ∧ (lexer.atTopLevel && head == ')') = true := by
  have first : count = 0 := by
    apply Nat.eq_zero_of_not_pos
    intro positive
    have stands := closes.stands
    rw [not_standsAt_inside plainTarget_closing positive inside] at stands
    exact Bool.false_ne_true stands
  subst first
  have balanced := closes.balanced
  rw [codeCount_zero, codeCount_zero, Nat.zero_add] at balanced
  exact ⟨rfl, balanced, standsAt_zero.symm.trans closes.stands⟩

/-- A parenthesis that closes the only open one is where the list ends. -/
theorem closesAt_zero_iff (first : (lexer.atTopLevel && head == ')') = true) :
    lexer.ClosesAt 0 (head :: tail) count ↔ count = 0 := by
  constructor
  · intro closes
    refine Nat.eq_zero_of_not_pos fun positive => ?_
    have noOpening : (lexer.atTopLevel && head == '(') = false := by
      rw [beq_iff_eq.mp ((Bool.and_eq_true_iff.mp first).2)]
      exact Bool.and_false _
    have within := closes.inside 1 positive
    rw [codeCount_inside plainTarget_closing Nat.one_pos
      (lexer.taken_pos head tail),
      codeCount_inside plainTarget_opening Nat.one_pos
        (lexer.taken_pos head tail),
      first, noOpening] at within
    simp at within
  · rintro rfl
    refine ⟨standsAt_zero.trans first, rfl, fun earlier before => ?_⟩
    rw [Nat.le_zero.mp before, codeCount_zero]
    exact Nat.zero_le _

/-- The level that the search goes on with is the one behind the first
character. -/
theorem exists_innerDepth {depth : Nat}
    (deeper : (lexer.atTopLevel && head == ')') = true → 0 < depth) :
    ∃ inner,
      inner + (if lexer.atTopLevel && head == ')' then 1 else 0) =
        (depth + if lexer.atTopLevel && head == '(' then 1 else 0) ∧
      inner + 1 = if lexer.atTopLevel && head == '(' then depth + 1 + 1
        else if lexer.atTopLevel && head == ')' then depth + 1 - 1
        else depth + 1 := by
  by_cases opening : (lexer.atTopLevel && head == '(') = true
  · have noClosing : ¬(lexer.atTopLevel && head == ')') = true := by
      rw [beq_iff_eq.mp ((Bool.and_eq_true_iff.mp opening).2), Bool.and_eq_true]
      exact fun closing => absurd closing.2 (by decide)
    refine ⟨depth + 1, ?_, ?_⟩
    · rw [if_pos opening, if_neg noClosing]
    · rw [if_pos opening]
  · by_cases closing : (lexer.atTopLevel && head == ')') = true
    · have positive := deeper closing
      refine ⟨depth - 1, ?_, ?_⟩
      · rw [if_neg opening, if_pos closing]
        omega
      · rw [if_neg opening, if_pos closing]
        omega
    · refine ⟨depth, ?_, ?_⟩
      · rw [if_neg opening, if_neg closing]
      · rw [if_neg opening, if_neg closing]

theorem findClosing?_eq_some_iff {depth : Nat} :
    lexer.findClosing? (depth + 1) text = some count ↔
    lexer.ClosesAt depth text count := by
  generalize levelEq : depth + 1 = level
  fun_induction Lexer.findClosing? level lexer text
    generalizing count depth with
  | case1 level lexer =>
      refine iff_of_false (by simp) fun closes => ?_
      exact absurd (standsAt_iff.mp closes.stands).2 (by simp)
  | case2 level lexer head tail here =>
      subst levelEq
      rw [Bool.and_eq_true, decide_eq_true_eq] at here
      obtain ⟨first, outermost⟩ := here
      obtain rfl : depth = 0 := by omega
      rw [Option.some.injEq, closesAt_zero_iff first, eq_comm]
  | case3 level lexer head tail goesOn nextLevel =>
      rename_i ih
      subst levelEq
      -- A parenthesis that closes here is not the outermost one.
      have deeper : (lexer.atTopLevel && head == ')') = true → 0 < depth := by
        intro closing
        apply Nat.pos_of_ne_zero
        rintro rfl
        rw [closing] at goesOn
        exact goesOn rfl
      obtain ⟨inner, innerEq, levelEq⟩ := exists_innerDepth deeper
      simp only [Option.map_eq_some_iff, ih levelEq]
      constructor
      · rintro ⟨later, closes, rfl⟩
        exact (ClosesAt.taken_add_iff head tail later innerEq).mpr closes
      · intro closes
        have outside : lexer.taken (head :: tail) ≤ count := by
          apply Nat.le_of_not_lt
          intro inside
          obtain ⟨-, outermost, closing⟩ := closes.inside_taken inside
          exact Nat.ne_of_gt (deeper closing) outermost
        obtain ⟨later, rfl⟩ := Nat.exists_eq_add_of_le outside
        exact ⟨later,
          (ClosesAt.taken_add_iff head tail later innerEq).mp closes, rfl⟩

end Lexer

end SqlDump
