import SqlDump.Text.Basic

/-!
# Decimal fractions

Numbers with a fixed count of decimal places, as they are printed in reports.
-/

namespace SqlDump

/-- The number of `units`, each of which is a one at the last place. -/
structure Decimal where
  units : Nat
  places : Nat
deriving DecidableEq, Repr

namespace Decimal

/-- The integer closest to a quotient; of two it is the even one. -/
def roundedQuotient (number divisor : Nat) : Nat :=
  let floor := number / divisor
  let twice := 2 * (number % divisor)
  if twice < divisor then floor
  else if divisor < twice then floor + 1
  else floor + floor % 2

def ofQuotient (places number divisor : Nat) : Decimal where
  units := roundedQuotient (number * Nat.pow 10 places) divisor
  places := places

def text (decimal : Decimal) : Text :=
  let one := Nat.pow 10 decimal.places
  let fraction := Text.ofNat (decimal.units % one)
  Text.ofNat (decimal.units / one) ++ ['.'] ++
    List.replicate (decimal.places - fraction.length) '0' ++ fraction

end Decimal

end SqlDump
