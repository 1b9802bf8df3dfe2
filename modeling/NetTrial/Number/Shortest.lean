import NetTrial.Number.Double
/-!
# The fewest digits that read back

A finite number is written with the fewest decimal digits that still round to it. Which
decimals do is an interval around the number, its ends included exactly when the mantissa
is even. For one digit, two digits and so on, the two neighbours of the number on that
decimal grid are tested in exact arithmetic; the first grid with a neighbour in the interval
gives the answer, the nearer of two, and a tie is settled by the caller's rule.
-/

namespace NetTrial.Number

/-- A decimal: `digits * 10 ^ exponent`. -/
structure Decimal where
  /-- The digits as one natural. -/
  digits : Nat
  /-- The power of ten. -/
  exponent : Int
  deriving DecidableEq, Repr

/-- Which of two equally near neighbours is written. -/
inductive Tie where
  /-- The larger one. -/
  | up
  /-- The one with the even last digit. -/
  | even
  deriving DecidableEq, Repr

/-- The decimals that round to a number: the number and the ends of the interval around it,
all three as naturals over one power of two. -/
structure Interval where
  /-- Four times the mantissa: the number. -/
  centre : Nat
  /-- The lower end. -/
  low : Nat
  /-- The upper end. -/
  high : Nat
  /-- The power of two that the three are multiplied by. -/
  exponent : Int
  /-- Whether the ends round to the number too. -/
  closed : Bool
  deriving Repr

/-- The interval of a finite magnitude. Below a power of two the numbers lie twice as close,
except at the foot of the format. -/
def Interval.around (f : Format) (mantissa : Nat) (exponent : Int) : Interval :=
  let narrow := mantissa = f.fractionRange ∧ f.leastExponent < exponent
  { centre := 4 * mantissa
    low := 4 * mantissa - (if narrow then 1 else 2)
    high := 4 * mantissa + 2
    exponent := exponent - 2
    closed := mantissa % 2 == 0 }

namespace Interval

/-- `point * 2 ^ exponent` scaled by the denominators of both sides, to be compared with a
grid point scaled alike. -/
def side (i : Interval) (point : Nat) (power : Int) : Nat :=
  scaleUp point i.exponent * powerOfTen (-power).toNat

/-- `digits * 10 ^ power` scaled by the denominators of both sides. -/
def grid (i : Interval) (digits : Nat) (power : Int) : Nat :=
  scaleUp (digits * powerOfTen power.toNat) (-i.exponent)

/-- Whether a grid point rounds to the number. -/
def holds (i : Interval) (digits : Nat) (power : Int) : Bool :=
  let point := i.grid digits power
  if i.closed then i.side i.low power ≤ point && point ≤ i.side i.high power
  else i.side i.low power < point && point < i.side i.high power

/-- The grid point at or below the number. -/
def below (i : Interval) (power : Int) : Nat := i.side i.centre power / i.grid 1 power

/-- The grid's nearer neighbour of the number when both round to it, or the one that does. -/
def pick? (i : Interval) (tie : Tie) (power : Int) : Option Nat :=
  let d := i.below power
  match i.holds d power, i.holds (d + 1) power with
  | true, false => some d
  | false, true => some (d + 1)
  | false, false => none
  | true, true =>
    let twice := 2 * i.side i.centre power
    let middle := i.grid (2 * d + 1) power
    if twice < middle then some d
    else if middle < twice then some (d + 1)
    else match tie with
      | .up => some (d + 1)
      | .even => some (d + d % 2)

/-- The power of ten of the number's leading digit: a guess from the power of two, put right
by one exact test each way. -/
def leadingPower (i : Interval) : Int :=
  let guess : Int := ((i.centre.log2 : Int) + i.exponent) * 30103 / 100000
  let reaches (p : Int) : Bool := i.grid 1 p ≤ i.side i.centre p
  if reaches (guess + 1) then guess + 1 else if reaches guess then guess else guess - 1

end Interval

/-- The trailing zeros of the digits moved into the exponent, at most `fuel` of them. -/
def Decimal.strip : (fuel : Nat) → Decimal → Decimal
  | 0, d => d
  | n + 1, d =>
    if d.digits % 10 = 0 ∧ d.digits ≠ 0 then strip n ⟨d.digits / 10, d.exponent + 1⟩ else d

/-- The fewest digits that read back as a finite magnitude. Seventeen are enough for either
format, so the last case is never taken. -/
def shortest (f : Format) (tie : Tie) (mantissa : Nat) (exponent : Int) : Decimal :=
  if mantissa = 0 then ⟨0, 0⟩
  else
    let i := Interval.around f mantissa exponent
    let lead := i.leadingPower
    let found := (List.range 17).findSome? fun (n : Nat) =>
      (i.pick? tie (lead - n)).map fun d => (⟨d, lead - n⟩ : Decimal)
    Decimal.strip 18 (found.getD ⟨i.below (lead - 16), lead - 16⟩)

end NetTrial.Number
