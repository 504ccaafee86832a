/-!
# Decimal text of bounded length

Numbers are unbounded, their decimal texts are not: reading and writing stop at
`digitLimit` digits.  `read?` takes a run of digits, leading zeros included in
its length; `write?` takes an integer, the sign not counted.

`write?_eq_none_iff` says which integers have no text, and `read?_toDigits`
says that a text that is written without a sign can be read back.
-/

namespace Offside.Decimal

/-- The longest run of digits that is read or written. -/
def digitLimit : Nat := 4300

/-- The least magnitude that needs more than `digitLimit` digits. -/
@[irreducible] def bound : Nat := Nat.pow 10 digitLimit

/-- The value of a run of digits, unless the run is too long. -/
def read? (digits : List Char) : Option Nat :=
  if digits.length ≤ digitLimit then some (Nat.ofDigitChars 10 digits 0) else none

/-- The text of an integer, unless it is too long. -/
def write? (value : Int) : Option String :=
  if value.natAbs < bound then some (toString value) else none

theorem write?_eq_none_iff (value : Int) : write? value = none ↔ bound ≤ value.natAbs := by
  simp [write?]

/-- An integer has no text exactly if it has too many digits. -/
theorem write?_eq_none_iff_length (value : Int) :
    write? value = none ↔ digitLimit < (Nat.toDigits 10 value.natAbs).length := by
  -- stated of any limit, so that the power is never evaluated
  have hdigits (limit : Nat) (hlimit : 0 < limit) :
      (Nat.toDigits 10 value.natAbs).length ≤ limit ↔ value.natAbs < Nat.pow 10 limit :=
    Nat.length_toDigits_le_iff (by decide) hlimit
  have hbound : (Nat.toDigits 10 value.natAbs).length ≤ digitLimit ↔ value.natAbs < bound := by
    unfold bound
    exact hdigits digitLimit (by decide)
  rw [write?_eq_none_iff, ← Nat.not_le, hbound, Nat.not_lt]

theorem read?_eq_none_iff (digits : List Char) :
    read? digits = none ↔ digitLimit < digits.length := by
  simp [read?]

/-- Reading undoes writing. -/
theorem read?_toDigits {value : Nat} (h : (Nat.toDigits 10 value).length ≤ digitLimit) :
    read? (Nat.toDigits 10 value) = some value := by
  rw [read?, if_pos h, Nat.ofDigitChars_toDigits (by decide) (by decide)]

end Offside.Decimal
