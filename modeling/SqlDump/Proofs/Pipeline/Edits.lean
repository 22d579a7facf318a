import SqlDump.Proofs.Guard.Lead
import SqlDump.Proofs.Lexer.Line
import SqlDump.Proofs.Pipeline.Counter
import SqlDump.Proofs.Unwrap.Pieces

/-!
# What sanitizing edits

Removing volatile values takes a unit apart into pieces: the times and the
counters, which are replaced, and the text around them, which is copied.  A
counter stands in the code of a `CREATE TABLE` statement.  A time stands behind
a comment that begins a line of the lead, and this is a line comment exactly if
the line begins in code.
-/

namespace SqlDump

namespace Volatile

variable {lexer : Lexer} {before : Option Char} {atLineStart : Bool}
  {head : Char} {tail text front behind rest label value original result : Text}

def timeStart : Text := " on ".toList

def staysOnLine (character : Char) : Bool :=
  character != '\r' && character != '\n'

/-- What follows the text begins a line, if the text itself begins one. -/
def beginsLineBehind (atLineStart : Bool) (text : Text) : Bool :=
  (text.getLast?.map (· == '\n')).getD atLineStart

def timeEdits (atLineStart : Bool) : Text → List Piece
  | [] => []
  | head :: tail =>
      match _comment :
          (if atLineStart then Text.after? (completedComment ++ timeStart)
            (head :: tail)
          else none) with
      | some rest =>
          .copied completedComment ::
          .replaced (timeStart ++ rest.takeWhile staysOnLine) [] ::
            timeEdits false (rest.dropWhile staysOnLine)
      | none => .copied [head] :: timeEdits (head == '\n') tail
termination_by text => text.length
decreasing_by
  · have comment := _comment
    split at comment
    · have shorter := congrArg List.length (Text.after?_eq_some_iff.mp comment)
      have dropped := length_dropWhile_le staysOnLine rest
      have positive : 0 < completedComment.length := by decide
      simp only [List.length_append] at shorter
      omega
    · simp at comment
  · simp

theorem timeEdits_comment (rest : Text) :
    timeEdits true (completedComment ++ (timeStart ++ rest)) =
      .copied completedComment ::
      .replaced (timeStart ++ rest.takeWhile staysOnLine) [] ::
        timeEdits false (rest.dropWhile staysOnLine) := by
  have found : Text.after? (completedComment ++ timeStart)
      (completedComment ++ (timeStart ++ rest)) = some rest :=
    Text.after?_eq_some_iff.mpr (List.append_assoc _ _ _).symm
  obtain ⟨head, tail, textEq⟩ : ∃ head tail,
      completedComment ++ (timeStart ++ rest) = head :: tail := ⟨_, _, rfl⟩
  rw [textEq] at found ⊢
  rw [timeEdits]
  split
  · next other otherFound =>
      rw [if_pos rfl, found] at otherFound
      rw [Option.some.inj otherFound]
  · next none =>
      rw [if_pos rfl, found] at none
      simp at none

theorem timeEdits_cons
    (noComment : atLineStart = true →
        ¬completedComment ++ timeStart <+: head :: tail) :
    timeEdits atLineStart (head :: tail) = .copied [head] ::
      timeEdits (head == '\n') tail := by
  rw [timeEdits]
  split
  · next rest found =>
      split at found
      · next begins =>
          exact absurd ⟨rest, (Text.after?_eq_some_iff.mp found).symm⟩
            (noComment begins)
      · simp at found
  · rfl

/-- Induction along the comments and the characters between them. -/
theorem time_induction {motive : Bool → Text → Prop}
    (nil : ∀ atLineStart, motive atLineStart [])
    (comment : ∀ rest, motive false (rest.dropWhile staysOnLine) →
      motive true (completedComment ++ (timeStart ++ rest)))
    (character : ∀ atLineStart head tail,
      (atLineStart = true → ¬completedComment ++ timeStart <+: head :: tail) →
      motive (head == '\n') tail → motive atLineStart (head :: tail))
    (atLineStart : Bool) (text : Text) : motive atLineStart text := by
  fun_induction timeEdits atLineStart text with
  | case1 atLineStart => exact nil atLineStart
  | case2 atLineStart head tail rest found ih =>
      split at found
      · next begins =>
          rw [begins, Text.after?_eq_some_iff.mp found, List.append_assoc]
          exact comment rest ih
      · simp at found
  | case3 atLineStart head tail none ih =>
      apply character atLineStart head tail _ ih
      rintro rfl ⟨rest, split⟩
      rw [dif_pos rfl, Text.after?_eq_some_iff.mpr split.symm] at none
      simp at none

theorem originals_timeEdits (atLineStart : Bool) (text : Text) :
    originals (timeEdits atLineStart text) = text := by
  induction atLineStart, text using time_induction with
  | nil atLineStart => rw [timeEdits]; rfl
  | comment rest ih =>
      rw [timeEdits_comment, originals_cons, originals_cons, ih]
      simp only [Piece.original, List.append_assoc,
        List.takeWhile_append_dropWhile]
  | character atLineStart head tail noComment ih =>
      rw [timeEdits_cons noComment, originals_cons, ih]
      rfl

theorem results_timeEdits (atLineStart : Bool) (text : Text) :
    results (timeEdits atLineStart text) = stripTimes atLineStart text := by
  fun_induction stripTimes atLineStart text with
  | case1 atLineStart => rw [timeEdits]; rfl
  | case2 atLineStart head tail rest found ih =>
      split at found
      · next begins =>
          rw [begins, Text.after?_eq_some_iff.mp found, List.append_assoc]
          rw [show " on ".toList = timeStart from rfl, timeEdits_comment,
            results_cons, results_cons]
          exact congrArg (completedComment ++ ·) ih
      · simp at found
  | case3 atLineStart head tail none ih =>
      rw [timeEdits_cons, results_cons, ih]
      · rfl
      · rintro rfl ⟨rest, split⟩
        have found := Text.after?_eq_some_iff.mpr split.symm
        rw [dif_pos rfl] at none
        exact absurd (found.symm.trans none) (by simp)

theorem beginsLineBehind_cons (atLineStart : Bool) (head : Char) (tail : Text) :
    beginsLineBehind atLineStart (head :: tail) =
      beginsLineBehind (head == '\n') tail := by
  cases tail with
  | nil => rfl
  | cons next tail =>
      rw [beginsLineBehind, List.getLast?_cons_cons, beginsLineBehind,
        List.getLast?_eq_some_getLast (List.cons_ne_nil next tail)]
      rfl

private theorem beginsLineBehind_append (front text : Text) :
    beginsLineBehind atLineStart (front ++ text) =
      beginsLineBehind (beginsLineBehind atLineStart front) text := by
  induction front generalizing atLineStart with
  | nil => rfl
  | cons head front ih =>
      rw [List.cons_append, beginsLineBehind_cons, ih, beginsLineBehind_cons]

theorem endsLine_eq (text : Text) :
    endsLine text = beginsLineBehind true text := by
  unfold endsLine beginsLineBehind
  cases text.getLast? <;> rfl

/-- A time and the words in front of it fill the rest of a line that begins with
the comment. -/
structure TimeAt (atLineStart : Bool) (front original behind : Text) :
    Prop where
  comment : ∃ start, front = start ++ completedComment ∧
    beginsLineBehind atLineStart start = true
  time : ∃ time, original = timeStart ++ time ∧ ∀ character ∈ time,
    staysOnLine character = true
  ends : ∀ next ∈ behind.head?, staysOnLine next = false

/-- Where a text does not begin a line, only a line break can do so. -/
theorem TimeAt.anyway (at_ : TimeAt false front original behind) :
    TimeAt atLineStart front original behind := by
  obtain ⟨⟨start, rfl, begins⟩, time, ends⟩ := at_
  refine ⟨⟨start, rfl, ?_⟩, time, ends⟩
  unfold beginsLineBehind at begins ⊢
  cases last : start.getLast? with
  | none => simp [last] at begins
  | some character => simpa [last] using begins

theorem TimeAt.append
    (at_ : TimeAt (beginsLineBehind atLineStart text) front original behind) :
    TimeAt atLineStart (text ++ front) original behind := by
  obtain ⟨⟨start, rfl, begins⟩, time, ends⟩ := at_
  refine ⟨⟨text ++ start, (List.append_assoc _ _ _).symm, ?_⟩, time, ends⟩
  rwa [beginsLineBehind_append]

private theorem timeAt_of_replaced {pieces later : List Piece}
    (split : timeEdits atLineStart text = pieces ++ .replaced original
        result :: later) :
    result = [] ∧ TimeAt atLineStart (originals pieces) original
      (originals later) := by
  induction atLineStart, text using time_induction generalizing pieces with
  | nil atLineStart => simp [timeEdits] at split
  | comment rest ih =>
      have stops : ∀ next ∈ (rest.dropWhile staysOnLine).head?,
          staysOnLine next = false := by
        intro next here
        have stops := List.head?_dropWhile_not staysOnLine rest
        rwa [here] at stops
      rw [timeEdits_comment] at split
      match pieces with
      | [] => simp at split
      | [piece] =>
          simp only [List.cons_append, List.nil_append, List.cons.injEq,
            Piece.replaced.injEq] at split
          obtain ⟨rfl, ⟨rfl, rfl⟩, rfl⟩ := split
          refine ⟨rfl, ⟨[], rfl, rfl⟩,
            ⟨_, rfl, List.all_eq_true.mp List.all_takeWhile⟩, ?_⟩
          rwa [originals_timeEdits]
      | first :: second :: pieces =>
          simp only [List.cons_append, List.cons.injEq] at split
          obtain ⟨rfl, rfl, split⟩ := split
          obtain ⟨resultEq, at_⟩ := ih split
          refine ⟨resultEq, ?_⟩
          rw [originals_cons, originals_cons, ← List.append_assoc]
          exact at_.anyway.append
  | character atLineStart head tail noComment ih =>
      rw [timeEdits_cons noComment] at split
      cases pieces with
      | nil => simp at split
      | cons piece pieces =>
          simp only [List.cons_append, List.cons.injEq] at split
          obtain ⟨rfl, split⟩ := split
          obtain ⟨resultEq, at_⟩ := ih split
          refine ⟨resultEq, ?_⟩
          rw [originals_cons]
          apply TimeAt.append
          rw [Piece.original, beginsLineBehind_cons]
          exact at_

private theorem timeEdits_line (atLineStart : Bool) (front rest : Text) :
    timeEdits atLineStart (front ++ '\n' :: rest) =
      timeEdits atLineStart (front ++ ['\n']) ++ timeEdits true rest := by
  have noBreak : '\n' ∉ completedComment ++ timeStart := by decide
  have single (start : Bool) (rest : Text) :
      timeEdits start ('\n' :: rest) = .copied ['\n'] ::
        timeEdits true rest := by
    apply timeEdits_cons
    rintro - ⟨behind, split⟩
    exact absurd (List.cons.inj split).1 (by decide)
  induction size : front.length using Nat.strongRecOn
    generalizing atLineStart front with
  | _ size ih =>
      cases front with
      | nil =>
          rw [List.nil_append, List.nil_append, single, single, timeEdits]
          rfl
      | cons head tail =>
          by_cases comment : atLineStart = true ∧
          completedComment ++ timeStart <+: head :: tail
          · obtain ⟨rfl, behind, split⟩ := comment
            have shorter := congrArg List.length split
            have dropped := length_dropWhile_le staysOnLine behind
            have positive : 0 < completedComment.length := by decide
            simp only [List.length_append] at shorter
            have each (rest : Text) :=
              (Text.takeWhile_before (show staysOnLine '\n' = false from rfl)
                behind rest)
            have later :=
              ih _ (by omega) false (behind.dropWhile staysOnLine) rfl
            rw [← split]
            simp only [List.append_assoc]
            rw [timeEdits_comment, timeEdits_comment, (each rest).1,
              (each rest).2, (each []).1, (each []).2, later]
            rfl
          · have apart (rest : Text) :
                timeEdits atLineStart (head :: (tail ++ '\n' :: rest)) =
                  .copied [head] :: timeEdits (head == '\n')
                    (tail ++ '\n' :: rest) := by
              apply timeEdits_cons
              rintro begins ⟨behind, split⟩
              apply comment ⟨begins, ?_⟩
              have whole : (completedComment ++ timeStart) ++ behind =
                  (head :: tail) ++ '\n' :: rest := split
              rcases List.append_eq_append_iff.mp whole with
                ⟨between, frontEq, -⟩ | ⟨between, same, lineEq⟩
              · exact ⟨between, frontEq.symm⟩
              · cases between with
                | nil =>
                    exact ⟨[], by rw [List.append_nil, same, List.append_nil]⟩
                | cons first between =>
                    obtain ⟨rfl, -⟩ := List.cons.inj lineEq
                    rw [same] at noBreak
                    simp at noBreak
            rw [List.cons_append, List.cons_append, apart, apart,
              ih tail.length (by rw [← size]; simp) _ tail rfl]
            rfl

/-- A comment that begins a line is edited, and the text in front of it on its
own. -/
theorem timeEdits_at (begins : beginsLineBehind atLineStart front = true)
    (rest : Text) :
    timeEdits atLineStart (front ++ (completedComment ++ (timeStart ++ rest))) =
      timeEdits atLineStart front ++ .copied completedComment ::
        .replaced (timeStart ++ rest.takeWhile staysOnLine) [] ::
          timeEdits false (rest.dropWhile staysOnLine) := by
  rcases List.eq_nil_or_concat front with rfl | ⟨start, last, rfl⟩
  · obtain rfl : atLineStart = true := begins
    rw [List.nil_append, timeEdits_comment, timeEdits]
    rfl
  · rw [List.concat_eq_append] at begins ⊢
    obtain rfl : last = '\n' := by simpa [beginsLineBehind] using begins
    rw [List.append_assoc, List.singleton_append, timeEdits_line,
      timeEdits_comment]

def counterEdits (lexer : Lexer) (before : Option Char) : Text → List Piece
  | [] => []
  | head :: tail =>
      match _counter :
          (if lexer.atTopLevel && endsWord before then
            afterCounter? (head :: tail) else none) with
      | some rest =>
          .replaced ((head :: tail).take ((head :: tail).length - rest.length))
            zeroCounter ::
            counterEdits lexer (some '0') rest
      | none =>
          .copied ((head :: tail).take (lexer.taken (head :: tail))) ::
            counterEdits (lexer.next (head :: tail))
              ((head :: tail).take (lexer.taken (head :: tail))).getLast?
              ((head :: tail).drop (lexer.taken (head :: tail)))
termination_by text => text.length
decreasing_by
  · have counter := _counter
    split at counter
    · exact length_afterCounter?_lt counter
    · simp at counter
  · exact lexer.length_drop_taken_lt head tail

theorem counterEdits_counter (top : lexer.atTopLevel = true)
    (ends : endsWord before = true) (counter : Counter label value rest) :
    counterEdits lexer before (label ++ (value ++ rest)) =
      .replaced (label ++ value) zeroCounter :: counterEdits lexer (some '0')
        rest := by
  have found := counter.afterCounter?_eq
  obtain ⟨head, others, rfl, -⟩ := counter.label.letters
  have takeEq : (head :: (others ++ (value ++ rest))).take
      ((head :: (others ++ (value ++ rest))).length - rest.length) =
        head :: others ++ value := by
    have whole : head :: (others ++ (value ++ rest)) = head :: others ++
        value ++ rest := by simp
    rw [whole, List.length_append, Nat.add_sub_cancel, List.take_left]
  rw [List.cons_append] at found ⊢
  rw [counterEdits]
  split
  · next other otherFound =>
      rw [top, ends, Bool.and_self, if_pos rfl, found] at otherFound
      rw [← Option.some.inj otherFound, takeEq]
  · next none =>
      rw [top, ends, Bool.and_self, if_pos rfl, found] at none
      simp at none

theorem counterEdits_cons
    (passes : lexer.atTopLevel = true → endsWord before = true →
      afterCounter? (head :: tail) = none) :
    counterEdits lexer before (head :: tail) =
      .copied ((head :: tail).take (lexer.taken (head :: tail))) ::
        counterEdits (lexer.next (head :: tail))
          ((head :: tail).take (lexer.taken (head :: tail))).getLast?
          ((head :: tail).drop (lexer.taken (head :: tail))) := by
  rw [counterEdits]
  split
  · next rest found =>
      split at found
      · next here =>
          rw [Bool.and_eq_true] at here
          exact absurd (found.symm.trans (passes here.1 here.2)) (by simp)
      · simp at found
  · rfl

/-- Induction along the counters and the steps between them. -/
theorem counter_induction {motive : Lexer → Option Char → Text → Prop}
    (nil : ∀ lexer before, motive lexer before [])
    (counter : ∀ lexer before label value rest,
      lexer.atTopLevel = true → endsWord before = true →
      Counter label value rest → motive lexer (some '0') rest →
      motive lexer before (label ++ (value ++ rest)))
    (step : ∀ lexer before head tail,
      (lexer.atTopLevel = true → endsWord before = true →
      afterCounter? (head :: tail) = none) →
      motive (lexer.next (head :: tail))
        ((head :: tail).take (lexer.taken (head :: tail))).getLast?
        ((head :: tail).drop (lexer.taken (head :: tail))) →
      motive lexer before (head :: tail)) (lexer : Lexer) (before : Option Char)
    (text : Text) : motive lexer before text := by
  fun_induction counterEdits lexer before text with
  | case1 lexer before => exact nil lexer before
  | case2 lexer before head tail rest found ih =>
      split at found
      · next here =>
          rw [Bool.and_eq_true] at here
          obtain ⟨label, value, split, counts⟩ := counter_of_afterCounter? found
          rw [split]
          exact counter lexer before label value rest here.1 here.2 counts ih
      · simp at found
  | case3 lexer before head tail none ih =>
      apply step lexer before head tail _ ih
      intro top ends
      rwa [top, ends, Bool.and_self, dif_pos rfl] at none

theorem originals_counterEdits (lexer : Lexer) (before : Option Char)
    (text : Text) :
    originals (counterEdits lexer before text) = text := by
  induction lexer, before, text using counter_induction with
  | nil lexer before => rw [counterEdits]; rfl
  | counter lexer before label value rest top ends counter ih =>
      rw [counterEdits_counter top ends counter, originals_cons, ih]
      exact List.append_assoc _ _ _
  | step lexer before head tail passes ih =>
      rw [counterEdits_cons passes, originals_cons, ih]
      exact List.take_append_drop _ _

private theorem results_counterEdits (lexer : Lexer) (before : Option Char)
    (text : Text) :
    results (counterEdits lexer before text) =
      resetCounters lexer before text := by
  fun_induction resetCounters lexer before text with
  | case1 lexer before => rw [counterEdits]; rfl
  | case2 lexer before head tail rest found ih =>
      split at found
      · next here =>
          rw [Bool.and_eq_true] at here
          obtain ⟨label, value, split, counter⟩ :=
            counter_of_afterCounter? found
          rw [split, counterEdits_counter here.1 here.2 counter, results_cons,
            ih]
          rfl
      · simp at found
  | case3 lexer before head tail none taken ih =>
      rw [counterEdits_cons, results_cons, ih]
      · rfl
      · intro top ends
        rwa [top, ends, Bool.and_self, dif_pos rfl] at none

/-- A counter that begins in code and is not the end of a longer word. -/
structure CounterAt (lexer : Lexer) (before : Option Char)
    (front original behind : Text) : Prop where
  counter : ∃ label value, original = label ++ value ∧
    Counter label value behind
  begins : endsWord (front.getLast?.or before) = true
  inCode : lexer.inCodeAt (front ++ (original ++ behind)) front.length = true

theorem counterAt_of_replaced {pieces later : List Piece}
    (split : counterEdits lexer before text = pieces ++ .replaced original
        result :: later) :
    result = zeroCounter ∧
      CounterAt lexer before (originals pieces) original (originals later) := by
  induction lexer, before, text using counter_induction generalizing pieces with
  | nil lexer before => simp [counterEdits] at split
  | counter lexer before label value rest top ends counter ih =>
      rw [counterEdits_counter top ends counter] at split
      cases pieces with
      | nil =>
          simp only [List.nil_append, List.cons.injEq, Piece.replaced.injEq]
            at split
          obtain ⟨⟨rfl, rfl⟩, rfl⟩ := split
          refine ⟨rfl, ⟨label, value, rfl, ?_⟩, ends, ?_⟩
          · rwa [originals_counterEdits]
          · exact (Lexer.inCodeAt_zero _ _).trans top
      | cons piece pieces =>
          simp only [List.cons_append, List.cons.injEq] at split
          obtain ⟨rfl, split⟩ := split
          obtain ⟨resultEq, counts, begins, inCode⟩ := ih split
          refine ⟨resultEq, counts, ?_, ?_⟩
          · -- Directly behind the digits of a counter no word can begin.
            cases last : (originals pieces).getLast? with
            | none =>
                rw [last] at begins
                exact absurd begins (by decide)
            | some character =>
                rw [last] at begins
                rw [originals_cons, List.getLast?_append, last]
                exact begins
          · rw [originals_cons, Piece.original, List.length_append,
              List.append_assoc, Lexer.inCodeAt_plains _ top counter.plain,
              inCode]
  | step lexer before head tail passes ih =>
      have joins := originals_counterEdits lexer before (head :: tail)
      rw [split, originals_append, originals_cons] at joins
      rw [counterEdits_cons passes] at split
      cases pieces with
      | nil => simp at split
      | cons piece pieces =>
          simp only [List.cons_append, List.cons.injEq] at split
          obtain ⟨rfl, split⟩ := split
          obtain ⟨resultEq, counts, begins, inCode⟩ := ih split
          have lengthEq :
              ((head :: tail).take (lexer.taken (head :: tail))).length =
                lexer.taken (head :: tail) :=
                  List.length_take_of_le (lexer.taken_le _)
          have behind := originals_counterEdits (lexer.next (head :: tail))
            ((head :: tail).take (lexer.taken (head :: tail))).getLast?
            ((head :: tail).drop (lexer.taken (head :: tail)))
          rw [split, originals_append, originals_cons] at behind
          refine ⟨resultEq, counts, ?_, ?_⟩
          · have taken : (head :: tail).take (lexer.taken (head :: tail)) ≠
                [] := by
              rw [← List.length_pos_iff, lengthEq]
              exact lexer.taken_pos head tail
            rw [originals_cons, Piece.original, List.getLast?_append,
              Option.or_assoc, List.getLast?_eq_some_getLast taken,
              Option.some_or]
            rwa [List.getLast?_eq_some_getLast taken] at begins
          · change originals (_ :: pieces) ++ (original ++ originals later) =
              head :: tail at joins
            change originals pieces ++ (original ++ originals later) = _
              at behind
            rw [joins, originals_cons, Piece.original, List.length_append,
              lengthEq, Lexer.inCodeAt_taken_add, ← behind, inCode]

theorem endsWord_of_isNumber (isNumber : IsNumber value) (front : Text) :
    endsWord ((front ++ value).getLast?.or before) = false := by
  have last := List.getLast?_eq_some_getLast isNumber.nonempty
  have digit := isNumber.digits _ (List.getLast_mem isNumber.nonempty)
  rw [List.getLast?_append, last, Option.some_or, Option.some_or, endsWord,
    Option.any_some, isWord_of_isDecimalDigit digit]
  rfl

private theorem getLast?_or_append {front : Text} (nonempty : front ≠ [])
    (behind : Text) :
    (front ++ behind).getLast?.or before =
      behind.getLast?.or front.getLast? := by
  rw [List.getLast?_append, List.getLast?_eq_some_getLast nonempty,
    Option.or_assoc, Option.some_or]

/-- Induction along the counters and the steps in front of a letter that a
counter begins with. -/
theorem counter_front_induction {letter : Char}
    (isFirst : isFirstLetter letter = true)
    {motive : Lexer → Option Char → Text → Prop}
    (nil : ∀ lexer before, motive lexer before [])
    (counter : ∀ lexer before label value between,
      lexer.atTopLevel = true → endsWord before = true →
      (∀ rest, Counter label value (between ++ letter :: rest)) →
      motive lexer (some '0') between →
      motive lexer before (label ++ (value ++ between)))
    (step : ∀ lexer before head tail (step : Step) after,
      0 < step.consumed → step.consumed ≤ (head :: tail).length →
      (∀ rest,
      lexer.step true (head :: tail ++ letter :: rest) = (step, after)) →
      (∀ rest, lexer.atTopLevel = true → endsWord before = true →
      afterCounter? (head :: (tail ++ letter :: rest)) = none) →
      motive after ((head :: tail).take step.consumed).getLast?
        ((head :: tail).drop step.consumed) →
      motive lexer before (head :: tail)) (lexer : Lexer) (before : Option Char)
    (front : Text) : motive lexer before front := by
  induction size : front.length using Nat.strongRecOn
    generalizing lexer before front with
  | _ size ih =>
      cases front with
      | nil => exact nil lexer before
      | cons head tail =>
          have nonempty := List.cons_ne_nil head tail
          have walk (passes : ∀ rest,
              lexer.atTopLevel = true → endsWord before = true →
              afterCounter? (head :: (tail ++ letter :: rest)) = none) :
              motive lexer before (head :: tail) := by
            obtain ⟨taken, after, progress, fits, stepEq⟩ :=
              Lexer.step_before_separator (separator_of_isFirstLetter isFirst)
                lexer nonempty
            apply step lexer before head tail taken after progress fits
              stepEq passes
            apply ih _ _ _ _ _ rfl
            rw [List.length_drop]
            omega
          by_cases here : lexer.atTopLevel = true ∧ endsWord before = true
          · rcases afterCounter?_before nonempty isFirst with
              none | ⟨label, value, between, split, counted⟩
            · exact walk fun rest _ _ => none rest
            · rw [split] at size ⊢
              apply counter lexer before label value between here.1
                here.2 counted
              apply ih _ _ _ _ _ rfl
              have positive :=
                List.length_pos_iff.mpr (counted []).number.nonempty
              simp only [List.length_append] at size
              omega
          · exact walk fun rest top ends => absurd ⟨top, ends⟩ here

/-- A step that ends in the text in front copies what it takes there. -/
theorem counterEdits_append_of_step {more : Text} {step : Step} {after : Lexer}
    (fits : step.consumed ≤ (head :: tail).length)
    (stepEq : lexer.step true (head :: tail ++ more) = (step, after))
    (passes : lexer.atTopLevel = true → endsWord before = true →
      afterCounter? (head :: (tail ++ more)) = none) :
    counterEdits lexer before (head :: tail ++ more) =
      .copied ((head :: tail).take step.consumed) ::
        counterEdits after ((head :: tail).take step.consumed).getLast?
          ((head :: tail).drop step.consumed ++ more) := by
  have takenEq : lexer.taken (head :: (tail ++ more)) = step.consumed :=
    congrArg (·.1.consumed) stepEq
  have nextEq : lexer.next (head :: (tail ++ more)) = after :=
    congrArg (·.2) stepEq
  have takeEq : (head :: (tail ++ more)).take step.consumed =
      (head :: tail).take step.consumed :=
    List.take_append_of_le_length fits
  have dropEq : (head :: (tail ++ more)).drop step.consumed =
      (head :: tail).drop step.consumed ++ more :=
    List.drop_append_of_le_length fits
  rw [List.cons_append, counterEdits_cons passes, takenEq, nextEq,
    takeEq, dropEq]

/-- A counter that begins in code is edited whatever its value, and the text in
front of it on its own. -/
theorem counterEdits_at (isLabel : CounterLabel label) {first : Text}
    (ends : endsWord (front.getLast?.or before) = true)
    (inCode : lexer.inCodeAt (front ++ (label ++ first)) front.length = true) :
    ∃ pieces after, originals pieces = front ∧ ∀ value rest,
      Counter label value rest →
      counterEdits lexer before (front ++ (label ++ (value ++ rest))) =
        pieces ++ .replaced (label ++ value) zeroCounter :: counterEdits after
          (some '0') rest := by
  obtain ⟨letter, others, labelEq, isFirst, -⟩ := isLabel.letters
  have begins (rest : Text) : label ++ rest = letter :: (others ++ rest) := by
    rw [labelEq, List.cons_append]
  induction lexer, before, front using counter_front_induction isFirst with
  | nil lexer before =>
      have top : lexer.atTopLevel = true :=
        (Lexer.inCodeAt_zero _ _).symm.trans inCode
      exact ⟨[], lexer, rfl,
        fun value rest counter => counterEdits_counter top ends counter⟩
  | counter lexer before earlier value between top endsBefore counted ih =>
      have counts (rest : Text) :
          Counter earlier value (between ++ (label ++ rest)) :=
        begins rest ▸ counted (others ++ rest)
      have endsLater : endsWord (between.getLast?.or (some '0')) = true := by
        cases last : between.getLast? with
        | none =>
            rw [List.getLast?_eq_none_iff.mp last, List.append_nil,
              endsWord_of_isNumber (counts []).number] at ends
            exact absurd ends (by decide)
        | some character =>
            rwa [← List.append_assoc, List.getLast?_append, last] at ends
      have inCodeLater : lexer.inCodeAt (between ++ (label ++ first))
          between.length = true := by
        rwa [← List.append_assoc earlier, List.length_append,
          List.append_assoc (earlier ++ value),
          Lexer.inCodeAt_plains _ top (counts []).plain] at inCode
      obtain ⟨pieces, last, joins, edited⟩ := ih endsLater inCodeLater
      refine ⟨.replaced (earlier ++ value) zeroCounter :: pieces, last, ?_,
        fun later rest counter => ?_⟩
      · rw [originals_cons, joins]
        exact List.append_assoc _ _ _
      · rw [List.append_assoc, List.append_assoc,
          counterEdits_counter top endsBefore (counts _),
          edited later rest counter]
        rfl
  | step lexer before head tail step after progress fits stepEq passes ih =>
      have taken : (head :: tail).take step.consumed ≠ [] := by
        rw [← List.length_pos_iff, List.length_take_of_le fits]
        exact progress
      have parts := List.take_append_drop step.consumed (head :: tail)
      have endsLater : endsWord (((head :: tail).drop step.consumed).getLast?.or
          ((head :: tail).take step.consumed).getLast?) = true := by
        rwa [← getLast?_or_append taken, parts]
      have inCodeLater :
          after.inCodeAt ((head :: tail).drop step.consumed ++ (label ++ first))
          ((head :: tail).drop step.consumed).length = true := by
        rw [begins, List.length_cons,
          Lexer.inCodeAt_append_of_step (stepEq _) fits] at inCode
        rw [begins, List.length_drop]
        exact (if_pos fits).symm.trans inCode
      obtain ⟨pieces, last, joins, edited⟩ := ih endsLater inCodeLater
      refine ⟨.copied ((head :: tail).take step.consumed) :: pieces, last, ?_,
        fun value rest counter => ?_⟩
      · rw [originals_cons, joins]
        exact parts
      · have later := edited value rest counter
        rw [begins] at later ⊢
        rw [counterEdits_append_of_step fits (stepEq _) (passes _), later]
        rfl

/-- The pieces of a unit: those of its lead, and those of its statement if it
creates a table. -/
def edits (text : Text) : List Piece :=
  timeEdits true (splitStatement text).1 ++
    if Ddl.isCreateTable (splitStatement text).2 then
      counterEdits {} none (splitStatement text).2
    else [.copied (splitStatement text).2]

/-- What is replaced in a unit, and by what: a time in the lead, or a counter in
the statement. -/
inductive Edit (lead body : Text) : Text → Text → Text → Prop where
  | time {front original behind : Text}
      (split : lead = front ++ (original ++ behind))
      (time : TimeAt true front original behind) :
      Edit lead body front original []
  | counter {front original behind : Text}
      (creates : Ddl.isCreateTable body = true)
      (split : body = front ++ (original ++ behind))
      (counter : CounterAt {} none front original behind) :
      Edit lead body (lead ++ front) original zeroCounter

theorem originals_edits (text : Text) : originals (edits text) = text := by
  have parts := (splitStatement_spec text).1
  unfold edits
  split
  · rw [originals_append, originals_timeEdits, originals_counterEdits]
    exact parts.symm
  · rw [originals_append, originals_timeEdits]
    simpa [originals, Piece.original] using parts.symm

theorem results_edits (state : PipelineState) (text : Text) :
    results (edits text) = (apply state text).2 := by
  unfold edits apply
  dsimp only
  split
  · rw [results_append, results_timeEdits, results_counterEdits]
  · rw [results_append, results_timeEdits]
    simp [results, Piece.result]

private theorem append_eq_append_cons {first second pieces later : List Piece}
    {piece : Piece} (split : first ++ second = pieces ++ piece :: later) :
    (∃ between, first = pieces ++ piece :: between ∧
      later = between ++ second) ∨
      ∃ between, pieces = first ++ between ∧
      second = between ++ piece :: later := by
  rcases List.append_eq_append_iff.mp split with
      ⟨between, rfl, same⟩ | ⟨between, rfl, same⟩
  · exact .inr ⟨between, rfl, same⟩
  · cases between with
    | nil => exact .inr ⟨[], by simp, same.symm⟩
    | cons head between =>
        obtain ⟨rfl, rfl⟩ := List.cons.inj same
        exact .inl ⟨between, rfl, rfl⟩

theorem edit_of_replaced {pieces later : List Piece}
    (split : edits text = pieces ++ .replaced original result :: later) :
    Edit (splitStatement text).1 (splitStatement text).2 (originals pieces)
      original result := by
  rcases append_eq_append_cons split with
      ⟨between, inLead, -⟩ | ⟨between, rfl, inBody⟩
  · obtain ⟨rfl, time⟩ := timeAt_of_replaced inLead
    have joins := originals_timeEdits true (splitStatement text).1
    rw [inLead, originals_append, originals_cons] at joins
    exact .time joins.symm time
  · split at inBody
    · next creates =>
        obtain ⟨rfl, counter⟩ := counterAt_of_replaced inBody
        have joins := originals_counterEdits {} none (splitStatement text).2
        rw [inBody, originals_append, originals_cons] at joins
        rw [originals_append, originals_timeEdits]
        exact .counter creates joins.symm counter
    · cases between with
      | nil => simp at inBody
      | cons piece between => simp at inBody

end Volatile

end SqlDump
