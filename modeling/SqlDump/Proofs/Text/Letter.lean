import SqlDump.Text.Blank
import SqlDump.Text.Letter

/-!
# Letters and their codes

What is read as a word in any letter case has no smaller characters than the
word in capitals, and no letter is blank.
-/

namespace SqlDump

theorem toNat_of_isUpper {character : Char} (upper : character.isUpper = true) :
    65 ≤ character.toNat ∧ character.toNat ≤ 90 := by
  obtain ⟨least, largest⟩ := of_decide_eq_true upper
  exact ⟨UInt32.le_iff_toNat_le.mp least, UInt32.le_iff_toNat_le.mp largest⟩

theorem toNat_of_isLower {character : Char} (lower : character.isLower = true) :
    97 ≤ character.toNat ∧ character.toNat ≤ 122 := by
  obtain ⟨least, largest⟩ := (Bool.and_eq_true _ _).mp lower
  exact ⟨UInt32.le_iff_toNat_le.mp (of_decide_eq_true least),
    UInt32.le_iff_toNat_le.mp (of_decide_eq_true largest)⟩

theorem not_isAlpha_of_isBlank {character : Char}
    (blank : isBlank character = true) :
    (character.isAlpha || character == '_') = false := by
  rw [Bool.or_eq_false_iff]
  constructor
  · rw [Bool.eq_false_iff]
    intro letter
    simp only [isBlank, Bool.or_eq_true, Bool.and_eq_true, decide_eq_true_eq,
      beq_iff_eq] at blank
    rcases (Bool.or_eq_true _ _).mp letter with upper | lower
    · have bounds := toNat_of_isUpper upper
      omega
    · have bounds := toNat_of_isLower lower
      omega
  · rw [beq_eq_false_iff_ne]
    rintro rfl
    exact absurd blank (by decide)

theorem toNat_toLower (character : Char) :
    character.toLower.toNat =
      if character.isUpper then character.toNat + 32 else character.toNat := by
  by_cases upper : character.isUpper = true
  · have moved : character.toLower.val = character.val + 32 :=
      congrArg Char.val (dif_pos (of_decide_eq_true upper))
    have largest := (toNat_of_isUpper upper).2
    have codes := congrArg UInt32.toNat moved
    rw [UInt32.toNat_add] at codes
    change character.toLower.toNat = (character.toNat + 32) % 2 ^ 32 at codes
    rw [if_pos upper, codes, Nat.mod_eq_of_lt (by omega)]
  · have kept : character.toLower = character :=
      dif_neg fun bounds => upper (decide_eq_true bounds)
    rw [if_neg upper, kept]

theorem foldLetter_of_lt {character : Char}
    (below : character.toNat < 'a'.toNat) :
    foldLetter character = character.toLower := by
  unfold foldLetter
  split
  · next longS => exact absurd below (by rw [longS]; decide)
  · split
    · next kelvin => exact absurd below (by rw [kelvin]; decide)
    · rfl

/-- What is read as a character below the small letters is that character or a
larger one. -/
theorem toNat_le_of_foldLetter_eq {wanted found : Char}
    (capital : wanted.toNat < 'a'.toNat)
    (same : foldLetter found = foldLetter wanted) :
    wanted.toNat ≤ found.toNat := by
  have small : 'a'.toNat = 97 := rfl
  rcases Nat.lt_or_ge found.toNat 'a'.toNat with below | above
  · rw [foldLetter_of_lt below, foldLetter_of_lt capital] at same
    have codes := congrArg Char.toNat same
    rw [toNat_toLower, toNat_toLower] at codes
    by_cases upper : found.isUpper = true
    · have bounds := toNat_of_isUpper upper
      rw [if_pos upper] at codes
      split at codes <;> omega
    · rw [if_neg upper] at codes
      split at codes <;> omega
  · omega

end SqlDump
