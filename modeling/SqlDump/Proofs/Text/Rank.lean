import SqlDump.Text.Basic

/-!
# The rank of a text

What takes characters off a text, or puts smaller ones in the place of larger
ones, lowers its rank.  Such changes to the parts of a text, and one after the
other, cannot undo each other.
-/

namespace SqlDump

namespace Text

/-- Squares, so that a few letters outweigh more digits. -/
def rank : Text → Nat
  | [] => 0
  | head :: tail => (head.toNat + 1) * (head.toNat + 1) + rank tail

theorem rank_append (first second : Text) :
    rank (first ++ second) = first.rank + second.rank := by
  induction first with
  | nil => exact (Nat.zero_add _).symm
  | cons head tail ih => rw [List.cons_append, rank, rank, ih, Nat.add_assoc]

theorem rank_pos {text : Text} (nonempty : text ≠ []) : 0 < text.rank := by
  obtain ⟨head, tail, rfl⟩ := List.exists_cons_of_ne_nil nonempty
  have positive : 0 < (head.toNat + 1) * (head.toNat + 1) :=
    Nat.mul_pos (Nat.succ_pos _) (Nat.succ_pos _)
  rw [rank]
  omega

/-- The text stays, or its rank falls. -/
def Lowered (text result : Text) : Prop :=
  result = text ∨ result.rank < text.rank

namespace Lowered

variable {text middle result first firstResult second secondResult : Text}

protected theorem refl (text : Text) : Lowered text text :=
  .inl rfl

theorem rank_le (lowered : Lowered text result) : result.rank ≤ text.rank := by
  rcases lowered with rfl | lower
  · exact Nat.le_refl _
  · exact Nat.le_of_lt lower

theorem eq_of_rank_le (lowered : Lowered text result)
    (least : text.rank ≤ result.rank) :
    result = text :=
  lowered.resolve_right (Nat.not_lt.mpr least)

theorem trans (earlier : Lowered text middle) (later : Lowered middle result) :
    Lowered text result := by
  rcases earlier with rfl | lower
  · exact later
  · exact .inr (Nat.lt_of_le_of_lt later.rank_le lower)

/-- A second change does not undo the first one. -/
theorem trans_eq_iff (earlier : Lowered text middle)
    (later : Lowered middle result) :
    result = text ↔ middle = text ∧ result = middle := by
  constructor
  · rintro rfl
    have same := earlier.eq_of_rank_le later.rank_le
    exact ⟨same, same.symm⟩
  · rintro ⟨rfl, rfl⟩
    rfl

theorem append (front : Lowered first firstResult)
    (behind : Lowered second secondResult) :
    Lowered (first ++ second) (firstResult ++ secondResult) := by
  have frontLe := front.rank_le
  have behindLe := behind.rank_le
  rcases front with rfl | lower
  · rcases behind with rfl | lower
    · exact .refl _
    · right
      rw [rank_append, rank_append]
      omega
  · right
    rw [rank_append, rank_append]
    omega

/-- Changes to two parts do not make up for each other. -/
theorem append_eq_iff (front : Lowered first firstResult)
    (behind : Lowered second secondResult) :
    firstResult ++ secondResult = first ++ second ↔
      firstResult = first ∧ secondResult = second := by
  constructor
  · intro same
    have ranks := congrArg rank same
    have frontLe := front.rank_le
    have behindLe := behind.rank_le
    rw [rank_append, rank_append] at ranks
    exact ⟨front.eq_of_rank_le (by omega), behind.eq_of_rank_le (by omega)⟩
  · rintro ⟨rfl, rfl⟩
    rfl

theorem character {larger smaller : Char} (le : smaller.toNat ≤ larger.toNat) :
    Lowered [larger] [smaller] := by
  rcases Nat.lt_or_eq_of_le le with less | same
  · right
    exact Nat.mul_self_lt_mul_self (Nat.succ_lt_succ less)
  · left
    rw [Char.toNat_inj.mp same]

end Lowered

theorem lowered_of_sublist {text result : Text}
    (sublist : result.Sublist text) :
    Lowered text result := by
  induction sublist with
  | slnil => exact .refl []
  | @cons result text head rest ih =>
      right
      have positive := rank_pos (List.cons_ne_nil head [])
      have lower := ih.rank_le
      rw [← List.singleton_append, rank_append]
      omega
  | cons_cons head rest ih => exact (Lowered.refl [head]).append ih

theorem lowered_nil (text : Text) : Lowered text [] :=
  lowered_of_sublist (List.nil_sublist text)

end Text

end SqlDump
