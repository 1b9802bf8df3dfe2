/-!
# Binary floating-point formats

A format is fixed by the widths of its fraction and exponent fields. `decode` says which
number a bit pattern stands for, and `round` gives the bit pattern nearest to a quotient of
two naturals, a tie going to the even fraction. Both work in exact integer arithmetic.
-/

namespace NetTrial.Number

/-- The widths of the two fields below the sign bit. -/
structure Format where
  /-- Bits of the fraction, the leading one of a normal number left out. -/
  fractionBits : Nat
  /-- Bits of the exponent field. -/
  exponentBits : Nat

/-- Single precision: 32 bits. -/
def Format.single : Format := ⟨23, 8⟩

/-- Double precision: 64 bits. -/
def Format.double : Format := ⟨52, 11⟩

/-- What a bit pattern stands for. A finite pattern stands for `mantissa * 2 ^ exponent`. -/
inductive Value where
  /-- No number. -/
  | notANumber
  /-- A signed infinity. -/
  | infinite (negative : Bool)
  /-- A signed number, zero included. -/
  | finite (negative : Bool) (mantissa : Nat) (exponent : Int)
  deriving DecidableEq, Repr

namespace Format

/-- The number of values that the fraction field takes. -/
def fractionRange (f : Format) : Nat := 1 <<< f.fractionBits

/-- The number of values that the exponent field takes. -/
def exponentRange (f : Format) : Nat := 1 <<< f.exponentBits

/-- The exponent field of infinities and of what is no number. -/
def topExponent (f : Format) : Nat := f.exponentRange - 1

/-- The exponent of the numbers of least magnitude, counted at the last fraction bit. -/
def leastExponent (f : Format) : Int :=
  2 - ((1 <<< (f.exponentBits - 1) : Nat) : Int) - f.fractionBits

/-- The bit pattern of positive infinity. -/
def infinity (f : Format) : Nat := f.topExponent * f.fractionRange

/-- The bit pattern that holds nothing but the sign. -/
def signBit (f : Format) (negative : Bool) : Nat :=
  if negative then 1 <<< (f.fractionBits + f.exponentBits) else 0

/-- The fraction field of a bit pattern. -/
def fraction (f : Format) (bits : Nat) : Nat := bits % f.fractionRange

/-- The exponent field of a bit pattern. -/
def exponentField (f : Format) (bits : Nat) : Nat :=
  bits / f.fractionRange % f.exponentRange

/-- Whether the sign bit of a bit pattern is set. -/
def isNegative (f : Format) (bits : Nat) : Bool :=
  bits >>> (f.fractionBits + f.exponentBits) % 2 == 1

/-- What a bit pattern stands for. -/
def decode (f : Format) (bits : Nat) : Value :=
  let negative := f.isNegative bits
  if f.exponentField bits = f.topExponent then
    if f.fraction bits = 0 then .infinite negative else .notANumber
  else if f.exponentField bits = 0 then .finite negative (f.fraction bits) f.leastExponent
  else
    .finite negative (f.fraction bits + f.fractionRange)
      (f.leastExponent + (f.exponentField bits - 1 : Nat))

end Format

/-- The natural nearest to a quotient, a tie going to the even one. -/
def divideEven (num den : Nat) : Nat :=
  let q := num / den
  let r := num % den
  if 2 * r < den then q else if den < 2 * r then q + 1 else q + q % 2

/-- `a * 2 ^ e` for a natural exponent and `a` otherwise. -/
def scaleUp (a : Nat) (e : Int) : Nat := a <<< e.toNat

/-- The power of ten with a natural exponent. -/
def powerOfTen (k : Nat) : Nat := Nat.pow 10 k

/-- The largest `e` with `2 ^ e ≤ num / den`, for positive `num` and `den`. -/
def floorLog2 (num den : Nat) : Int :=
  let guess : Int := (num.log2 : Int) - (den.log2 : Int)
  if scaleUp den guess ≤ scaleUp num (-guess) then guess else guess - 1

/-- The bit pattern of the magnitude nearest to `num / den`; infinity when it is too large. -/
def Format.roundMagnitude (f : Format) (num den : Nat) : Nat :=
  if num = 0 then 0
  else
    let place := max (floorLog2 num den - f.fractionBits) f.leastExponent
    let mantissa := divideEven (scaleUp num (-place)) (scaleUp den place)
    min ((place - f.leastExponent).toNat * f.fractionRange + mantissa) f.infinity

/-- The bit pattern nearest to `± num / den`. -/
def Format.round (f : Format) (negative : Bool) (num den : Nat) : Nat :=
  f.signBit negative + f.roundMagnitude num den

/-- A finite value in another format, rounded where it has to be. -/
def Value.encode (f : Format) : Value → Nat
  | .notANumber => f.infinity + f.fractionRange / 2
  | .infinite negative => f.signBit negative + f.infinity
  | .finite negative mantissa exponent =>
    f.round negative (scaleUp mantissa exponent) (scaleUp 1 (-exponent))

/-- The product of two values, rounded. -/
def Value.times (f : Format) : Value → Value → Nat
  | .finite s m e, .finite t n k =>
    f.round (s != t) (scaleUp (m * n) (e + k)) (scaleUp 1 (-(e + k)))
  | _, _ => f.infinity + f.fractionRange / 2

/-- The quotient of two values, rounded. -/
def Value.over (f : Format) : Value → Value → Nat
  | .finite s m e, .finite t n k =>
    f.round (s != t) (scaleUp m (e - k)) (scaleUp n (k - e))
  | _, _ => f.infinity + f.fractionRange / 2

/-- The bit pattern nearest to `± digits * 10 ^ exponent`. The two tests keep the powers of
ten small: beyond them the answer is infinity or zero in either format. -/
def Format.ofDecimal (f : Format) (negative : Bool) (digits : Nat) (exponent : Int) : Nat :=
  if digits = 0 then f.signBit negative
  else if 400 < exponent then f.signBit negative + f.infinity
  else if exponent < -(400 + (digits.log2 : Int)) then f.signBit negative
  else f.round negative (digits * powerOfTen exponent.toNat)
    (powerOfTen (-exponent).toNat)

end NetTrial.Number
