import SqlDump.Pipeline.TableOptions
import SqlDump.Proofs.Ddl.Naming
import SqlDump.Proofs.Lexer.Search

/-!
# Column lists and the options behind them

A column list ends with the first parenthesis in code that closes its own.  Its
options are what follows on the same line, up to the first semicolon in code.
Up to its name a statement reads to a place in code, so these places are those
of the whole statement.
-/

namespace SqlDump

open Lexer (codeCount)

/-- A list in parentheses up to the parenthesis that closes it, in front of what
follows. -/
structure ColumnList (columns behind : Text) : Prop where
  opens : columns.head? = some '('
  closes : ({} : Lexer).inCodeAt (columns ++ ')' :: behind) columns.length =
    true
  balanced : codeCount {} '(' (columns ++ ')' :: behind) columns.length =
    codeCount {} ')' (columns ++ ')' :: behind) columns.length + 1
  inside : ∀ count, 0 < count → count ≤ columns.length →
    codeCount {} ')' (columns ++ ')' :: behind) count <
      codeCount {} '(' (columns ++ ')' :: behind) count

namespace Lexer

theorem separator_closing : Separator ')' := ⟨by decide, by decide⟩

variable {lexer : Lexer} {target separator : Char} {front : Text} {count : Nat}

private theorem standsAt_before_separator (separates : Separator separator)
    (first second : Text) (within : count < front.length) :
    lexer.StandsAt target (front ++ separator :: first) count =
      lexer.StandsAt target (front ++ separator :: second) count := by
  rw [StandsAt, StandsAt,
    inCodeAt_before_separator separates lexer front first second
      (Nat.le_of_lt within),
    List.getElem?_append_left within, List.getElem?_append_left within]

/-- Whether a separator stands in code is decided in front of it. -/
theorem standsAt_front (separates : Separator separator) (first second : Text)
    (within : count < front.length) :
    lexer.StandsAt separator (front ++ first) count =
      lexer.StandsAt separator (front ++ second) count := by
  rw [StandsAt, StandsAt, List.getElem?_append_left within,
    List.getElem?_append_left within]
  by_cases here : front[count]? = some separator
  · obtain ⟨inBounds, valueEq⟩ := List.getElem?_eq_some_iff.mp here
    have parts (other : Text) : front ++ other =
        front.take count ++ separator :: (front.drop (count + 1) ++ other) := by
      rw [← valueEq, ← List.cons_append, ← List.drop_eq_getElem_cons inBounds,
        ← List.append_assoc, List.take_append_drop]
    have lengthEq : count ≤ (front.take count).length :=
      Nat.le_of_eq (List.length_take_of_le (Nat.le_of_lt within)).symm
    rw [parts first, parts second,
      inCodeAt_before_separator separates lexer _ _ _ lengthEq]
  · have elsewhere : (front[count]? == some separator) = false :=
      beq_eq_false_iff_ne.mpr here
    rw [elsewhere, Bool.and_false, Bool.and_false]

theorem codeCount_before_separator (separates : Separator separator)
    (first second : Text) (within : count ≤ front.length) :
    lexer.codeCount target (front ++ separator :: first) count =
      lexer.codeCount target (front ++ separator :: second) count := by
  refine List.countP_congr fun place member => ?_
  have before := List.mem_range.mp member
  rw [standsAt_before_separator separates first second
    (Nat.lt_of_lt_of_le before within)]

end Lexer

namespace ColumnList

variable {columns behind rest : Text}

theorem congr_behind (list : ColumnList columns behind) (other : Text) :
    ColumnList columns other where
  opens := list.opens
  closes := by
    rw [Lexer.inCodeAt_before_separator Lexer.separator_closing {} columns other
      behind (Nat.le_refl _)]
    exact list.closes
  balanced := by
    have same (target : Char) :
        codeCount {} target (columns ++ ')' :: other) columns.length =
          codeCount {} target (columns ++ ')' :: behind) columns.length :=
      Lexer.codeCount_before_separator Lexer.separator_closing other behind
        (Nat.le_refl _)
    rw [same, same]
    exact list.balanced
  inside := fun count positive within => by
    have same (target : Char) :
        codeCount {} target (columns ++ ')' :: other) count =
          codeCount {} target (columns ++ ')' :: behind) count :=
      Lexer.codeCount_before_separator Lexer.separator_closing other
        behind within
    rw [same, same]
    exact list.inside count positive within

theorem taken_opening (list : Text) :
    ({} : Lexer).taken ('(' :: list) = 1 ∧
      ({} : Lexer).next ('(' :: list) = {} := by
  have step : ({} : Lexer).step true ('(' :: list) = (.skip 1, {}) :=
    Lexer.step_of_plain list rfl (by decide)
  exact ⟨congrArg (fun result => result.1.consumed) step,
    congrArg Prod.snd step⟩

private theorem matchingParenthesis?_opening (list : Text) :
    matchingParenthesis? ('(' :: list) = (({} : Lexer).findClosing? 1 list).map
      (1 + ·) := by
  obtain ⟨takenEq, nextEq⟩ := taken_opening list
  rw [matchingParenthesis?, Lexer.findClosing?, takenEq, nextEq]
  rfl

theorem codeCount_opening {target : Char} (plain : Lexer.PlainTarget target)
    (list : Text) (count : Nat) :
    codeCount {} target ('(' :: list) (1 + count) =
      (if '(' = target then 1 else 0) + codeCount {} target list count := by
  obtain ⟨takenEq, nextEq⟩ := taken_opening list
  have behind := Lexer.codeCount_taken_add {} plain '(' list count
  rw [takenEq, nextEq] at behind
  rw [behind, List.drop_succ_cons, List.drop_zero]
  simp [Lexer.atTopLevel]

theorem iff_closesAt (front : Text) :
    ColumnList ('(' :: front) behind ↔
      ({} : Lexer).ClosesAt 0 (front ++ ')' :: behind) front.length := by
  have opened (count : Nat) : codeCount {} '(' ('(' :: front ++ ')' :: behind)
      (1 + count) =
      1 + codeCount {} '(' (front ++ ')' :: behind) count :=
    codeCount_opening Lexer.plainTarget_opening _ count
  have closed (count : Nat) : codeCount {} ')' ('(' :: front ++ ')' :: behind)
      (1 + count) =
      0 + codeCount {} ')' (front ++ ')' :: behind) count :=
    codeCount_opening Lexer.plainTarget_closing _ count
  have lengthEq : ('(' :: front).length = 1 + front.length := by
    rw [List.length_cons, Nat.add_comm]
  have here : (front ++ ')' :: behind)[front.length]? = some ')' := by simp
  have code : ({} : Lexer).inCodeAt ('(' :: front ++ ')' :: behind)
      (1 + front.length) =
      ({} : Lexer).inCodeAt (front ++ ')' :: behind) front.length := by
    rw [Nat.add_comm]
    exact Lexer.inCodeAt_of_plain _ _ rfl (by decide)
  constructor
  · rintro ⟨-, closes, balanced, inside⟩
    rw [lengthEq] at closes balanced inside
    rw [opened, closed] at balanced
    refine ⟨Lexer.standsAt_iff.mpr ⟨code.symm.trans closes, here⟩, by omega, ?_⟩
    intro earlier before
    have within := inside (1 + earlier) (by omega) (by omega)
    rw [opened, closed] at within
    omega
  · rintro ⟨stands, balanced, inside⟩
    refine ⟨rfl, ?_, ?_, ?_⟩
    · rw [lengthEq, code]
      exact (Lexer.standsAt_iff.mp stands).1
    · rw [lengthEq, opened, closed]
      omega
    · intro count positive within
      obtain ⟨earlier, rfl⟩ := Nat.exists_eq_add_of_le positive
      have before := inside earlier (by omega)
      rw [opened, closed]
      omega

end ColumnList

namespace TableOptions

variable {rest behind : Text}

/-- The text has something behind its column list exactly if it begins with a
column list. -/
theorem behindColumns?_eq_some_iff :
    behindColumns? rest = some behind ↔
      ∃ columns, rest.trimStart = columns ++ ')' :: behind ∧
      ColumnList columns behind := by
  unfold behindColumns?
  split
  · next list trimmed =>
      rw [ColumnList.matchingParenthesis?_opening, Option.map_map, trimmed]
      simp only [Option.map_eq_some_iff, Lexer.findClosing?_eq_some_iff,
        Function.comp_apply]
      constructor
      · rintro ⟨count, closes, rfl⟩
        obtain ⟨inBounds, here⟩ :=
          List.getElem?_eq_some_iff.mp (Lexer.standsAt_iff.mp closes.stands).2
        have parts :
            list = list.take count ++ ')' :: list.drop (count + 1) := by
          rw [← here, ← List.drop_eq_getElem_cons inBounds,
            List.take_append_drop]
        have lengthEq : (list.take count).length = count :=
          List.length_take_of_le (Nat.le_of_lt inBounds)
        rw [parts] at closes
        rw [Nat.add_comm 1 count, List.drop_succ_cons]
        refine ⟨'(' :: list.take count, ?_, (ColumnList.iff_closesAt _).mpr ?_⟩
        · rw [List.cons_append, ← parts]
        · rw [lengthEq]
          exact closes
      · rintro ⟨columns, split, isList⟩
        obtain ⟨front, rfl⟩ := List.head?_eq_some_iff.mp isList.opens
        obtain rfl : list = front ++ ')' :: behind := (List.cons.inj split).2
        refine ⟨front.length, (ColumnList.iff_closesAt front).mp isList, ?_⟩
        rw [Nat.add_comm 1 front.length, List.drop_succ_cons, List.drop_append,
          List.drop_eq_nil_of_le (Nat.le_succ _), Nat.add_sub_cancel_left]
        rfl
  · next noOpening =>
      refine iff_of_false (by simp) ?_
      rintro ⟨columns, split, isList⟩
      obtain ⟨tail, rfl⟩ := List.head?_eq_some_iff.mp isList.opens
      exact noOpening _ split

/-- The options are what follows on the line, up to the first semicolon in
code. -/
structure OptionsLine (behind options rest : Text) : Prop where
  split : behind = options ++ rest
  oneLine : '\n' ∉ options
  noTerminator : ∀ count < options.length,
    ({} : Lexer).StandsAt ';' behind count = false
  ends : rest = [] ∨ rest.head? = some '\n' ∨
    ({} : Lexer).StandsAt ';' behind options.length = true

private theorem line_spec (text : Text) :
    ∃ after, text = text.takeWhile (· != '\n') ++ after ∧
    '\n' ∉ text.takeWhile (· != '\n') ∧
      (after = [] ∨ ∃ later, after = '\n' :: later) := by
  refine ⟨text.dropWhile (· != '\n'), List.takeWhile_append_dropWhile.symm, ?_,
    ?_⟩
  · intro member
    have other := List.all_eq_true.mp List.all_takeWhile _ member
    simp at other
  · cases after : text.dropWhile (· != '\n') with
    | nil => exact .inl rfl
    | cons head later =>
        have first := List.head?_dropWhile_not (· != '\n') text
        rw [after] at first
        have same : head = '\n' := by simpa using first
        exact .inr ⟨later, by rw [same]⟩

theorem optionsLine_optionsOf (behind : Text) :
    ∃ rest, OptionsLine behind (optionsOf behind) rest := by
  obtain ⟨after, split, oneLine, ends⟩ := line_spec behind
  unfold optionsOf
  dsimp only
  generalize behind.takeWhile (· != '\n') = line at split oneLine
  subst split
  have stands {count : Nat} (within : count < line.length) :
      ({} : Lexer).StandsAt ';' (line ++ after) count =
        ({} : Lexer).StandsAt ';' line count := by
    rcases ends with rfl | ⟨later, rfl⟩
    · rw [List.append_nil]
    · exact Lexer.standsAt_before_break {} ';' line later within
  cases found : findTopLevel? ';' line with
  | none =>
      refine ⟨after, rfl, oneLine, fun count within => ?_, ?_⟩
      · rw [stands within]
        exact Lexer.not_standsAt_of_find?_eq_none Lexer.plainTarget_semicolon
          found count
      · rcases ends with rfl | ⟨later, rfl⟩
        · exact .inl rfl
        · exact .inr (.inl rfl)
  | some terminator =>
      obtain ⟨here, first⟩ :=
        (Lexer.find?_eq_some_iff Lexer.plainTarget_semicolon).mp found
      have inLine := Lexer.length_of_standsAt here
      have lengthEq : (line.take terminator).length = terminator :=
        List.length_take_of_le (Nat.le_of_lt inLine)
      refine ⟨line.drop terminator ++ after, ?_, ?_, ?_, .inr (.inr ?_)⟩
      · rw [← List.append_assoc, List.take_append_drop]
      · exact fun member => oneLine (List.mem_of_mem_take member)
      · intro count within
        dsimp only at within
        rw [lengthEq] at within
        rw [stands (Nat.lt_trans within inLine)]
        exact first count within
      · dsimp only
        rw [lengthEq, stands inLine]
        exact here

/-- What is inserted behind the last visible character of the options belongs to
the options. -/
theorem prefix_optionsOf {trimmed blanks rest run : Text}
    (line : OptionsLine (trimmed ++ (blanks ++ rest)) (trimmed ++ blanks) rest)
    (oneLine : '\n' ∉ run) (noTerminator : ';' ∉ run) :
    trimmed ++ run <+: optionsOf (trimmed ++ (run ++ (blanks ++ rest))) := by
  obtain ⟨behind, new⟩ :=
    optionsLine_optionsOf (trimmed ++ (run ++ (blanks ++ rest)))
  generalize optionsOf (trimmed ++ (run ++ (blanks ++ rest))) = options at new
  have whole : trimmed ++ run <+: trimmed ++ (run ++ (blanks ++ rest)) :=
    ⟨blanks ++ rest, List.append_assoc ..⟩
  have inFront : options <+: trimmed ++ (run ++ (blanks ++ rest)) :=
    ⟨behind, new.split.symm⟩
  apply List.prefix_of_prefix_length_le whole inFront
  apply Nat.le_of_not_lt
  intro shorter
  -- The options would end at a character of the front or of the run.
  obtain ⟨last, member, here⟩ : ∃ last ∈ trimmed ++ run,
      (trimmed ++ (run ++ (blanks ++ rest)))[options.length]? = some last := by
    refine ⟨(trimmed ++ run)[options.length], List.getElem_mem shorter, ?_⟩
    rw [← List.append_assoc, List.getElem?_append_left shorter,
      List.getElem?_eq_getElem shorter]
  have lastEq : behind.head? = some last := by
    rw [← here, new.split, List.getElem?_append_right (Nat.le_refl _),
      Nat.sub_self, List.head?_eq_getElem?]
  rcases new.ends with rfl | lineBreak | terminator
  · simp at lastEq
  · rw [lineBreak] at lastEq
    obtain rfl := Option.some.inj lastEq
    rcases List.mem_append.mp member with inTrimmed | inRun
    · exact line.oneLine (List.mem_append_left _ inTrimmed)
    · exact oneLine inRun
  · rw [(Lexer.standsAt_iff.mp terminator).2] at here
    obtain rfl := Option.some.inj here
    rcases Nat.lt_or_ge options.length trimmed.length with inTrimmed | inRun
    · have before := line.noTerminator options.length
        (by rw [List.length_append]; omega)
      rw [Lexer.standsAt_front Lexer.separator_semicolon _
        (run ++ (blanks ++ rest)) inTrimmed, terminator] at before
      exact absurd before (by decide)
    · apply noTerminator
      have place : (run ++ (blanks ++ rest))[options.length - trimmed.length]? =
        some ';' := by
        rw [← List.getElem?_append_right inRun]
        exact (Lexer.standsAt_iff.mp terminator).2
      rw [List.length_append] at shorter
      rw [List.getElem?_append_left (by omega)] at place
      exact List.mem_of_getElem? place

end TableOptions

end SqlDump
