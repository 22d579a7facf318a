import SqlDump.Proofs.Pipeline.Counter
import SqlDump.Proofs.Pipeline.Suppression
import SqlDump.Proofs.Pipeline.ZoneStatement
import SqlDump.Proofs.Text.Letter
import SqlDump.Proofs.Text.Rank

/-!
# Stages lower the rank

Every stage keeps a unit or lowers its rank: an offset is smaller than the name
of a zone, a drop and a time leave, and a counter becomes the smallest one.
-/

namespace SqlDump

open Text

theorem lowered_of_isWord {word text : Text}
    (capitals : word.all (fun wanted => wanted.toNat < 'a'.toNat) = true)
    (isWord : IsWord word text) : Lowered text word := by
  induction word generalizing text with
  | nil =>
      rw [IsWord, List.map_nil, List.map_eq_nil_iff] at isWord
      exact .inl isWord.symm
  | cons wanted word ih =>
      cases text with
      | nil => simp [IsWord] at isWord
      | cons found text =>
          rw [IsWord, List.map_cons, List.map_cons, List.cons.injEq] at isWord
          rw [List.all_cons, Bool.and_eq_true, decide_eq_true_eq] at capitals
          have first := toNat_le_of_foldLetter_eq capitals.1 isWord.1
          have rest := ih capitals.2 isWord.2
          exact (Lowered.character first).append rest

namespace TimeZone

private theorem rank_offsetLiteral_lt {literal : Text}
    (isUtc : IsUtcLiteral literal) :
    rank offsetLiteral < literal.rank := by
  obtain ⟨quote, name, rfl, isQuote, isName⟩ := isUtc
  have capitals :
      Lowered (quote :: name ++ [quote]) (quote :: "UTC".toList ++ [quote]) :=
    ((Lowered.refl [quote]).append
      (lowered_of_isWord (by decide) isName)).append (.refl [quote])
  apply Nat.lt_of_lt_of_le _ capitals.rank_le
  rcases isQuote with rfl | rfl <;> decide

theorem rank_normalize?_lt {body normalized : Text}
    (changed : normalize? body = some normalized) :
    normalized.rank < body.rank := by
  obtain ⟨assignment, literal, ending, rfl, rfl, -, isUtc, -⟩ :=
    normalize?_spec changed
  have smaller := rank_offsetLiteral_lt isUtc
  simp only [rank_append]
  omega

end TimeZone

namespace DropStatement

variable {text body : Text} {guarded : Bool}

theorem finalLineBreak_sublist (text : Text) :
    (finalLineBreak text).Sublist text := by
  unfold finalLineBreak
  split
  · next ends => exact (List.isSuffixOf_iff_suffix.mp ends).sublist
  · split
    · next ends => exact (List.isSuffixOf_iff_suffix.mp ends).sublist
    · exact List.nil_sublist text

private theorem dropLineBreak_sublist (text : Text) :
    (dropLineBreak text).Sublist text := by
  obtain ⟨front, split, -⟩ := dropLineBreak_spec text
  have later := List.sublist_append_right front (dropLineBreak text)
  rwa [← split] at later

private theorem rank_remainder_lt (nonempty : body ≠ [])
    (guardedEq : (firstKeyword body).2 = guarded) (ownLine : Bool) :
    (remainder body guarded ownLine).rank < body.rank := by
  cases guarded with
  | false => exact rank_pos nonempty
  | true =>
      obtain ⟨guard, behind, scanned⟩ := scan_of_guarded guardedEq
      have later : (remainder body true ownLine).Sublist behind := by
        have terminators : (behind.dropWhile (· == ';')).Sublist behind :=
          List.dropWhile_sublist _
        rw [remainder, if_pos rfl, scanned]
        dsimp only
        split
        · exact (dropLineBreak_sublist _).trans terminators
        · exact terminators
      have split := (Guard.begins_of_scan scanned).split
      have marked : 0 < rank guard.raw :=
        rank_pos (by simp [Guard.raw, guardMarker])
      have behindLe := (lowered_of_sublist later).rank_le
      have parts := congrArg rank split
      rw [rank_append] at parts
      omega

theorem rank_apply_lt (atLineStart : Bool) (state : PipelineState)
    (unsettled : ¬Settled text) :
    (apply atLineStart state text).2.rank < text.rank := by
  cases found : find? (text.drop (statementOffset text)) with
  | none => exact absurd found unsettled
  | some drop =>
      obtain ⟨body, guarded⟩ := drop
      obtain ⟨lead, rfl, passed, guardedEq⟩ := passed_of_find? found
      rw [passed.settled_iff] at unsettled
      have visible : ¬Text.isAllBlank body = true := fun blank =>
        unsettled (settled_of_isAllBlank blank)
      have nonempty : body ≠ [] := by
        rintro rfl
        exact visible rfl
      have leadLe : (Text.dropEndWhile isPadding lead).rank ≤ lead.rank := by
        obtain ⟨padding, split, -⟩ := Text.dropEndWhile_spec isPadding lead
        have parts := congrArg rank split
        rw [rank_append] at parts
        omega
      have breakLt : (finalLineBreak body).rank < body.rank := by
        refine (lowered_of_sublist (finalLineBreak_sublist body)).resolve_left
          fun same => ?_
        apply visible
        rw [← same]
        exact isAllBlank_finalLineBreak body
      have restLt :=
        rank_remainder_lt nonempty guardedEq (beginsLine lead atLineStart)
      rw [apply_of_find? atLineStart state found, suppress, rank_append,
        rank_append]
      apply Nat.add_lt_add_of_le_of_lt leadLe
      split
      · split
        · exact rank_pos nonempty
        · exact breakLt
      · exact restLt

end DropStatement

namespace Volatile

theorem lowered_stripTimes (atLineStart : Bool) (text : Text) :
    Lowered text (stripTimes atLineStart text) := by
  fun_induction stripTimes atLineStart text with
  | case1 => exact .refl []
  | case2 atLineStart head tail rest comment ih =>
      split at comment
      · rw [Text.after?_eq_some_iff.mp comment, List.append_assoc]
        apply (Lowered.refl completedComment).append
        rw [← List.nil_append (stripTimes _ _)]
        apply (lowered_nil _).append
        exact (lowered_of_sublist (List.dropWhile_sublist _)).trans ih
      · simp at comment
  | case3 atLineStart head tail noComment ih =>
      exact (Lowered.refl [head]).append ih

private theorem toNat_zero_le_of_isDecimalDigit {digit : Char}
    (isDigit : isDecimalDigit digit = true) :
    '0'.toNat ≤ digit.toNat := by
  have zero : '0'.toNat = 48 := rfl
  unfold isDecimalDigit at isDigit
  split at isDigit
  · simp only [Char.isDigit, Bool.and_eq_true, decide_eq_true_eq, ge_iff_le,
      UInt32.le_iff_toNat_le] at isDigit
    exact isDigit.1
  · omega

/-- A counter is the smallest one or larger. -/
theorem Counter.lowered {label value rest : Text}
    (counter : Counter label value rest) :
    Lowered (label ++ value) zeroCounter := by
  obtain ⟨⟨word, gap, laterGap, rfl, isWord, -, -⟩, ⟨nonempty, digits⟩, -⟩ :=
    counter
  obtain ⟨digit, more, rfl⟩ := List.exists_cons_of_ne_nil nonempty
  have least :=
    toNat_zero_le_of_isDecimalDigit (digits digit List.mem_cons_self)
  have parts : word ++ (gap ++ '=' :: laterGap) ++ digit :: more =
      word ++ (gap ++ (['='] ++ (laterGap ++ ([digit] ++ more)))) := by simp
  rw [parts]
  change Lowered _
    ("AUTO_INCREMENT".toList ++ ([] ++ (['='] ++ ([] ++ (['0'] ++ [])))))
  refine (lowered_of_isWord (by decide) isWord).append ?_
  refine (lowered_nil gap).append ?_
  refine (Lowered.refl ['=']).append ?_
  refine (lowered_nil laterGap).append ?_
  exact (Lowered.character least).append (lowered_nil more)

theorem lowered_resetCounters (lexer : Lexer) (before : Option Char)
    (text : Text) :
    Lowered text (resetCounters lexer before text) := by
  fun_induction resetCounters lexer before text with
  | case1 => exact .refl []
  | case2 lexer before head tail rest counter ih =>
      split at counter
      · obtain ⟨label, value, split, counter⟩ :=
          counter_of_afterCounter? counter
        rw [split, ← List.append_assoc]
        exact counter.lowered.append ih
      · simp at counter
  | case3 lexer before head tail noCounter taken ih =>
      have parts := List.take_append_drop taken (head :: tail)
      have lowered := (Lowered.refl ((head :: tail).take taken)).append ih
      rwa [parts] at lowered

end Volatile

end SqlDump
