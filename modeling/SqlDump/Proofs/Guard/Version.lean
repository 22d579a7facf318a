import Mathlib.Data.List.Induction
import Mathlib.Data.Nat.Digits.Defs
import SqlDump.Guard

/-!
# Versions of guards

The digits of a guard denote a number in base ten.  Its version is that number
as far as it fits 32 bits: a reader that takes digit after digit and gives up
once the number has no room left, with the largest version in its place, finds
the same.  So the comparison with a threshold of 32 bits is the comparison of
the number itself, however long the run of digits is.
-/

namespace SqlDump

def digitValue (digit : Char) : Nat :=
  digit.toNat - '0'.toNat

/-- Read one more digit unless the number outgrows 32 bits. -/
def readDigit? (value : Nat) (digit : Char) : Option Nat :=
  if 10 * value + digitValue digit ≤ maxVersion then
    some (10 * value + digitValue digit) else none

/-- The number of 32 bits that a run of digits denotes. -/
def readDigits? (digits : Text) : Option Nat :=
  digits.foldlM readDigit? 0

theorem digitsValue_eq_ofDigits (digits : Text) :
    digitsValue digits = Nat.ofDigits 10 (digits.reverse.map digitValue) := by
  induction digits using List.reverseRecOn with
  | nil => rfl
  | append_singleton digits digit ih =>
      rw [List.reverse_append, List.map_append, List.reverse_singleton,
        List.map_singleton, List.singleton_append, Nat.ofDigits_cons, ← ih,
        digitsValue, List.foldl_append, Nat.add_comm]
      rfl

private theorem le_foldl_digits (digits : Text) (value : Nat) :
    value ≤ digits.foldl (fun value digit => 10 * value + digitValue digit)
      value := by
  induction digits generalizing value with
  | nil => exact Nat.le_refl value
  | cons digit digits ih =>
      have later := ih (10 * value + digitValue digit)
      rw [List.foldl_cons]
      omega

private theorem foldlM_readDigit? (digits : Text) (value : Nat)
    (fits : value ≤ maxVersion) :
    digits.foldlM readDigit? value =
      if digits.foldl (fun value digit => 10 * value + digitValue digit) value ≤
        maxVersion then
        some (digits.foldl (fun value digit => 10 * value + digitValue digit)
          value)
      else none := by
  induction digits generalizing value with
  | nil => rw [List.foldl_nil, if_pos fits, List.foldlM_nil]; rfl
  | cons digit digits ih =>
      have grows := le_foldl_digits digits (10 * value + digitValue digit)
      rw [List.foldlM_cons, List.foldl_cons, readDigit?]
      by_cases room : 10 * value + digitValue digit ≤ maxVersion
      · rw [if_pos room]
        exact ih _ room
      · rw [if_neg room, if_neg fun all => room (Nat.le_trans grows all)]
        rfl

/-- The largest version stands in for a number without room. -/
theorem versionOfDigits_eq_getD (digits : Text) :
    versionOfDigits digits = (readDigits? digits).getD maxVersion := by
  have read := foldlM_readDigit? digits 0 (Nat.zero_le maxVersion)
  rw [versionOfDigits, readDigits?, read]
  change min (digits.foldl (fun value digit => 10 * value + digitValue digit) 0)
    maxVersion = _
  split
  · next room => exact Nat.min_eq_left room
  · next noRoom => exact Nat.min_eq_right (Nat.le_of_not_le noRoom)

theorem shouldUnwrap_iff {threshold : Nat} (fits : threshold ≤ maxVersion)
    (digits : Text) :
    shouldUnwrap (versionOfDigits digits) threshold = true ↔
      digitsValue digits < threshold := by
  rw [shouldUnwrap, decide_eq_true_iff, versionOfDigits]
  omega

end SqlDump
