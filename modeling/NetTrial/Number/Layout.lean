import NetTrial.Number.Shortest
/-!
# How decimals are laid out

Messages write a number positionally, whatever its size. Documents write it positionally
within a range of magnitudes and with an exponent outside of it; the range depends on the
format, and the pieces are kept apart so that a document's number stays a number.
-/

namespace NetTrial.Number

/-- The decimal digits of a natural, the most significant first. -/
def digitsOf (n : Nat) : List Char := Nat.toDigits 10 n

/-- A natural in decimal. -/
def natText (n : Nat) : String := String.ofList (digitsOf n)

/-- A magnitude written without an exponent and without a needless point. -/
def positional (d : Decimal) : List Char :=
  let ds := digitsOf d.digits
  if 0 ≤ d.exponent then
    if d.digits = 0 then ['0'] else ds ++ List.replicate d.exponent.toNat '0'
  else
    let places := (-d.exponent).toNat
    if places < ds.length then
      ds.take (ds.length - places) ++ '.' :: ds.drop (ds.length - places)
    else '0' :: '.' :: (List.replicate (places - ds.length) '0' ++ ds)

/-- The magnitudes, by the power of ten of the leading digit, that a document writes
without an exponent. -/
structure PlainRange where
  /-- The least such power. -/
  least : Int
  /-- The greatest such power. -/
  greatest : Int

/-- The plain range of single-precision numbers. -/
def PlainRange.single : PlainRange := ⟨-6, 12⟩

/-- The plain range of double-precision numbers. -/
def PlainRange.double : PlainRange := ⟨-5, 15⟩

/-- A decimal number as a document spells it: sign, whole part, digits after the point and
exponent. -/
structure Spelling where
  /-- Whether a minus sign stands in front. -/
  negative : Bool
  /-- The whole part, spelled without leading zeros. -/
  whole : Nat
  /-- The digits after the point; no point is written when there are none. -/
  fraction : List (Fin 10)
  /-- The exponent, if one is written. -/
  exponent : Option Int
  deriving DecidableEq, Repr

namespace Spelling

/-- An integer. -/
def ofInt (n : Int) : Spelling := ⟨n < 0, n.natAbs, [], none⟩

/-- A natural. -/
def ofNat (n : Nat) : Spelling := ⟨false, n, [], none⟩

/-- Whether the number is spelled as an integer. -/
def isIntegral (s : Spelling) : Bool := s.fraction.isEmpty && s.exponent.isNone

/-- The last digits of a natural, the most significant first. -/
def lastDigits (n : Nat) : (count : Nat) → List (Fin 10)
  | 0 => []
  | k + 1 => ⟨n / powerOfTen k % 10, Nat.mod_lt _ (by decide)⟩ :: lastDigits n k

/-- The spelling of a decimal: at least one digit after the point in the plain range, and
none that is not needed beside an exponent. -/
def ofDecimal (range : PlainRange) (negative : Bool) (d : Decimal) : Spelling :=
  let count := (digitsOf d.digits).length
  let lead : Int := d.exponent + count - 1
  if d.digits = 0 then ⟨negative, 0, [0], none⟩
  else if range.least ≤ lead ∧ lead ≤ range.greatest then
    if 0 ≤ d.exponent then ⟨negative, d.digits * powerOfTen d.exponent.toNat, [0], none⟩
    else
      let places := (-d.exponent).toNat
      ⟨negative, d.digits / powerOfTen places, lastDigits d.digits places, none⟩
  else
    ⟨negative, d.digits / powerOfTen (count - 1), lastDigits d.digits (count - 1), some lead⟩

/-- The spelling of a bit pattern of a format; infinities and what is no number have none. -/
def ofBits? (f : Format) (range : PlainRange) (bits : Nat) : Option Spelling :=
  match f.decode bits with
  | .finite negative mantissa exponent =>
    some (ofDecimal range negative (shortest f .even mantissa exponent))
  | _ => none

end Spelling

end NetTrial.Number

namespace NetTrial

open Number

/-- A double-precision number as messages show it. -/
def Double.text (x : Double) : String :=
  match x.value with
  | .notANumber => "NaN"
  | .infinite negative => if negative then "-inf" else "inf"
  | .finite negative mantissa exponent =>
    String.ofList
      ((if negative then ['-'] else []) ++
        positional (shortest Format.double .up mantissa exponent))

end NetTrial
