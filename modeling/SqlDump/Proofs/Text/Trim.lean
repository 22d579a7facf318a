import Mathlib.Data.List.DropRight
import SqlDump.Proofs.Text.Word

/-!
# Trimmed texts

What a text that has no blank at its ends loses to a reader that drops blanks,
and that a word in some letter case is such a text.
-/

namespace SqlDump

namespace Text

theorem dropEndWhile_eq_rdropWhile (drops : Char → Bool) (text : Text) :
    text.dropEndWhile drops = text.rdropWhile drops :=
  rfl

theorem dropEndWhile_spec (drops : Char → Bool) (text : Text) :
    ∃ dropped, text = text.dropEndWhile drops ++ dropped ∧
      ∀ character ∈ dropped, drops character = true :=
  ⟨text.rtakeWhile drops, List.rdropWhile_append_rtakeWhile.symm,
    fun _ member => List.mem_rtakeWhile_imp member⟩

theorem dropEndWhile_append {drops : Char → Bool} {spare : Text} (text : Text)
    (dropped : ∀ character ∈ spare, drops character = true) :
    (text ++ spare).dropEndWhile drops = text.dropEndWhile drops := by
  induction spare using List.reverseRecOn with
  | nil => rw [List.append_nil]
  | append_singleton spare last ih =>
      rw [← List.append_assoc, dropEndWhile_eq_rdropWhile,
        List.rdropWhile_concat_pos _ _ _ (dropped last (by simp))]
      exact ih fun character member =>
        dropped character (List.mem_append_left _ member)

theorem trimEnd_append_drop (text : Text) :
    text = text.trimEnd ++ text.drop text.trimEnd.length ∧
      ∀ character ∈ text.drop text.trimEnd.length,
        isBlank character = true := by
  obtain ⟨blanks, split, blank⟩ := dropEndWhile_spec isBlank text
  change text = text.trimEnd ++ blanks at split
  have dropEq : text.drop text.trimEnd.length = blanks :=
    (congrArg (List.drop text.trimEnd.length) split).trans List.drop_left
  rw [dropEq]
  exact ⟨split, blank⟩

theorem trimEnd_append (text : Text) {word blanks : Text} (nonempty : word ≠ [])
    (visible : ∀ character ∈ word, isBlank character = false)
    (blank : ∀ character ∈ blanks, isBlank character = true) :
    (text ++ (word ++ blanks)).trimEnd = text ++ word := by
  rw [← List.append_assoc, trimEnd, dropEndWhile_append _ blank,
    dropEndWhile_eq_rdropWhile, List.rdropWhile_eq_self_iff]
  intro _
  rw [List.getLast_append_of_ne_nil _ nonempty, visible _ (List.getLast_mem _)]
  exact Bool.false_ne_true

/-- A word in some letter case has no blank if the word in small letters has
none. -/
theorem visible_of_sameAsciiWord {word text : Text}
    (same : sameAsciiWord text word = true)
    (letters : (word.map Char.toLower).all (fun letter => !isBlank letter) =
        true) :
    ∀ character ∈ text, isBlank character = false := by
  intro character member
  rw [Bool.eq_false_iff]
  intro blank
  have kept : character.toLower = character := by
    refine dif_neg fun bounds => ?_
    have upper : character.isUpper = true := decide_eq_true bounds
    have alpha : character.isAlpha = true :=
      (Bool.or_eq_true _ _).mpr (.inl upper)
    have noLetter := not_isAlpha_of_isBlank blank
    rw [alpha, Bool.true_or] at noLetter
    exact Bool.false_ne_true noLetter.symm
  have small : character.toLower ∈ word.map Char.toLower := by
    rw [← eq_of_beq same]
    exact List.mem_map_of_mem member
  have visible := List.all_eq_true.mp letters _ small
  rw [kept, blank] at visible
  exact Bool.false_ne_true visible

end Text

end SqlDump
