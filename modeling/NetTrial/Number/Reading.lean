import NetTrial.Number.Layout
/-!
# Reading a spelled decimal

A decimal is read in at most three roundings. Its leading digits, as many as a word of 64
bits holds, are rounded to a double-precision number; that number is multiplied or divided by
the double-precision number nearest to a power of ten. A division by more than the largest
such power is made in two steps. So the result is near the decimal and not always nearest
to it. A decimal that grows beyond the finite numbers has no reading.
-/

namespace NetTrial.Number

/-- The naturals below this fit a word of 64 bits. -/
def wordRange : Nat := 0x10000000000000000

/-- A decimal with one more digit of the whole part. Once a digit does not fit the word, it
and all later ones only count as places. -/
def Decimal.pushWhole (d : Decimal) (digit : Nat) : Decimal :=
  if d.exponent = 0 ∧ d.digits * 10 + digit < wordRange then ⟨d.digits * 10 + digit, 0⟩
  else ⟨d.digits, d.exponent + 1⟩

/-- A decimal with the digits behind the point, up to the first that does not fit the word. -/
def Decimal.pushFraction (d : Decimal) : List (Fin 10) → Decimal
  | [] => d
  | digit :: rest =>
    if d.digits * 10 + digit.val < wordRange then
      pushFraction ⟨d.digits * 10 + digit.val, d.exponent - 1⟩ rest
    else d

namespace Spelling

/-- The leading digits of a decimal that a word holds, with the power of ten they count. -/
def leading (s : Spelling) : Decimal :=
  let push (d : Decimal) (c : Char) : Decimal := d.pushWhole (c.toNat - '0'.toNat)
  let d := ((digitsOf s.whole).foldl push ⟨0, 0⟩).pushFraction s.fraction
  ⟨d.digits, d.exponent + s.exponent.getD 0⟩

end Spelling

/-- The exponent of the largest power of ten that is a finite double-precision number. -/
def largestPower : Nat := 308

/-- The double-precision number nearest to a power of ten. -/
def powerWord (k : Nat) : Nat := Format.double.round false (powerOfTen k) 1

/-- The bit pattern nearest to a magnitude divided by a power of ten. -/
def divideByPower (bits k : Nat) : Nat :=
  ((Format.double.decode bits).over Format.double (Format.double.decode (powerWord k)))

/-- The bit pattern of a decimal whose digits fit a word; infinity when it is too large. -/
def Decimal.scaled (d : Decimal) : Nat :=
  let lead := Format.double.round false d.digits 1
  if d.digits = 0 then 0
  else if 0 ≤ d.exponent then
    if largestPower < d.exponent.toNat then Format.double.infinity
    else (Format.double.decode lead).times Format.double
      (Format.double.decode (powerWord d.exponent.toNat))
  else
    let places := (-d.exponent).toNat
    if places ≤ largestPower then divideByPower lead places
    else if places ≤ 2 * largestPower then
      divideByPower (divideByPower lead largestPower) (places - largestPower)
    else 0

/-- The double-precision number that a spelling is read as; none beyond the finite ones. -/
def Spelling.toDouble? (s : Spelling) : Option Double :=
  let magnitude := s.leading.scaled
  if magnitude < Format.double.infinity then
    some ⟨(Format.double.signBit s.negative + magnitude).toUInt64⟩
  else none

end NetTrial.Number
