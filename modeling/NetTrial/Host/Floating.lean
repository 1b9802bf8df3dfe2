import NetTrial.Host.Numeral
import NetTrial.Number.Layout
/-!
# Floating-point numerals

Programs read and print numbers of a binary format, either double precision or the extended
precision of 64 bits. A numeral is read exactly and rounded once. A number is printed with so
many digits behind the point, with an exponent, in the shorter of the two ways, or in
hexadecimal; its digits are those of the exact value, rounded once, a tie going to the even
digit.
-/

namespace NetTrial.Host.Floating

open Number

/-- The extended precision: 64 bits of mantissa. -/
def extended : Format := ⟨63, 15⟩

/-! ## Reading -/

/-- Whether a text opens with a word, letters of either case. -/
def opensWithWord (word : Raw) (r : Raw) : Bool :=
  (r.take word.length).map Char.toLower == word

/-- The power of a base as a quotient of two naturals. -/
def powerOf (base : Nat) (e : Int) : Nat × Nat :=
  if 0 ≤ e then (Nat.pow base e.toNat, 1) else (1, Nat.pow base (-e).toNat)

/-- Digits with a point among them: their value without the point, how many stand behind it,
how many there are, and what follows. -/
def pointed (base : Nat) (r : Raw) : Nat × Nat × Nat × Raw :=
  let (n, rest) := takeDigits base 0 r.length r
  let count := r.length - rest.length
  match rest with
  | '.' :: behind =>
    let (n, after) := takeDigits base n behind.length behind
    let places := behind.length - after.length
    if count + places = 0 then (0, 0, 0, r) else (n, places, count + places, after)
  | _ => (n, 0, count, rest)

/-- The exponent behind a letter of either case, zero if there is none, and what follows. -/
def exponentAt (letter : Char) (r : Raw) : Int × Raw :=
  match r with
  | c :: rest =>
    if c.toLower = letter then
      let (negative, digits) := takeSign rest
      match magnitude? (some 10) digits with
      | some (n, after) => (if negative then -(n : Int) else n, after)
      | none => (0, r)
    else (0, r)
  | [] => (0, r)

/-- A number that was read: its value, whether it lies outside of the format, and what
follows it. -/
structure Found where
  /-- Whether a minus sign stands in front. -/
  negative : Bool
  /-- The value. -/
  value : Value
  /-- Whether the numeral is too large or too small for the format. -/
  outside : Bool
  /-- What follows the numeral. -/
  rest : Raw

/-- The number nearest to a quotient times a power of a base. Powers far beyond the format
are not written out. -/
def nearest (f : Format) (negative : Bool) (n base : Nat) (e : Int) : Value × Bool :=
  let reach : Int := 2 * (f.exponentRange : Int) + n.log2
  if n = 0 then (.finite negative 0 f.leastExponent, false)
  else if reach < e then (.infinite negative, true)
  else if e < -reach then (.finite negative 0 f.leastExponent, true)
  else
    let (up, down) := powerOf base e
    let bits := f.roundMagnitude (n * up) down
    let value := f.decode (f.signBit negative + bits)
    let exact := match value with
      | .finite _ m k => scaleUp m k * down = n * up * scaleUp 1 (-k)
      | _ => false
    let tiny := bits < f.fractionRange
    (value, bits = f.infinity || (tiny && !exact))

/-- Reads a number; none if the text opens with none. -/
def read? (f : Format) (r : Raw) : Option Found :=
  let (negative, r) := takeSign (r.dropWhile isSpace)
  if opensWithWord "infinity".toList r then some ⟨negative, .infinite negative, false, r.drop 8⟩
  else if opensWithWord "inf".toList r then some ⟨negative, .infinite negative, false, r.drop 3⟩
  else if opensWithWord "nan".toList r then
    let rest := r.drop 3
    let inside := rest.tail.takeWhile isNameChar
    let closed := rest.head? = some '(' ∧ (rest.drop (inside.length + 1)).head? = some ')'
    let rest := if closed then rest.drop (inside.length + 2) else rest
    some ⟨negative, .notANumber, false, rest⟩
  else
    let hexadecimal := match r with
      | '0' :: x :: rest => if x = 'x' ∨ x = 'X' then some (pointed 16 rest) else none
      | _ => none
    match hexadecimal with
    | some (n, places, _ + 1, rest) =>
      let (e, rest) := exponentAt 'p' rest
      let (value, outside) := nearest f negative n 2 (e - 4 * places)
      some ⟨negative, value, outside, rest⟩
    | _ =>
      match pointed 10 r with
      | (_, _, 0, _) => none
      | (n, places, _ + 1, rest) =>
        let (e, rest) := exponentAt 'e' rest
        let (value, outside) := nearest f negative n 10 (e - places)
        some ⟨negative, value, outside, rest⟩

/-! ## Printing -/

/-- How a number is printed. -/
inductive Style where
  /-- With so many digits behind the point. -/
  | fixed
  /-- With an exponent. -/
  | scientific
  /-- In the shorter of the two ways. -/
  | general
  /-- In hexadecimal. -/
  | hexadecimal
  deriving DecidableEq, Repr

/-- The natural nearest to a magnitude times a power of ten. -/
def scaledDigits (m : Nat) (e : Int) (places : Int) : Nat :=
  divideEven (scaleUp m e * Nat.pow 10 places.toNat)
    (scaleUp 1 (-e) * Nat.pow 10 (-places).toNat)

/-- Digits with a point before the last few of them. -/
def withPoint (always : Bool) (n places : Nat) : Raw :=
  let digits := digitsOf n
  let digits := List.replicate (places + 1 - digits.length) '0' ++ digits
  let whole := digits.take (digits.length - places)
  let fraction := digits.drop (digits.length - places)
  if fraction.isEmpty ∧ ¬ always then whole else whole ++ '.' :: fraction

/-- A magnitude with so many digits behind the point. -/
def fixedChars (always : Bool) (places m : Nat) (e : Int) : Raw :=
  withPoint always (scaledDigits m e places) places

/-- The power of ten of the leading digit of a positive magnitude. -/
def leadingPower (m : Nat) (e : Int) : Int :=
  let guess : Int := ((m.log2 : Int) + e) * 30103 / 100000
  let reaches (p : Int) : Bool :=
    scaleUp (Nat.pow 10 p.toNat) (-e) ≤ scaleUp m e * Nat.pow 10 (-p).toNat
  if reaches (guess + 1) then guess + 1 else if reaches guess then guess else guess - 1

/-- The digits of a magnitude rounded to one digit before the point and so many behind, and
the power of ten of the first. -/
def scientificDigits (places m : Nat) (e : Int) : Nat × Int :=
  if m = 0 then (0, 0)
  else
    let lead := leadingPower m e
    let n := scaledDigits m e (places - lead)
    if n < Nat.pow 10 (places + 1) then (n, lead) else (n / 10, lead + 1)

/-- An exponent: a letter, a sign and so many digits at least. -/
def exponentChars (letter : Char) (least : Nat) (e : Int) : Raw :=
  let digits := digitsOf e.natAbs
  letter :: (if e < 0 then '-' else '+') ::
    (List.replicate (least - digits.length) '0' ++ digits)

/-- A magnitude with an exponent. -/
def scientificChars (always : Bool) (places m : Nat) (e : Int) : Raw :=
  let (n, lead) := scientificDigits places m e
  withPoint always n places ++ exponentChars 'e' 2 lead

/-- Digits behind a point without the zeros at their end, and without a point that nothing
follows. -/
def withoutZeros (r : Raw) : Raw :=
  if r.contains '.' then
    let r := (r.reverse.dropWhile (· = '0'))
    (if r.head? = some '.' then r.tail else r).reverse
  else r

/-- A magnitude in the shorter of two ways, with so many digits in all. -/
def generalChars (always : Bool) (count m : Nat) (e : Int) : Raw :=
  let count := max count 1
  let (n, lead) := scientificDigits (count - 1) m e
  let keep (r : Raw) : Raw := if always then r else withoutZeros r
  if -4 ≤ lead ∧ lead < count then keep (fixedChars always (count - 1 - lead).toNat m e)
  else keep (withPoint always n (count - 1)) ++ exponentChars 'e' 2 lead

/-- A magnitude in hexadecimal: `bits` bits behind the point of the leading digit are shown
when no number of places is asked for. -/
def hexadecimalChars (f : Format) (always : Bool) (places : Option Nat) (m : Nat) (e : Int) : Raw :=
  let wide := f.fractionBits % 4 ≠ 0
  let bits := if wide then f.fractionBits - 3 else f.fractionBits
  let digits (n : Nat) (count : Nat) : Raw :=
    let ds := if count = 0 then [] else Nat.toDigits 16 n
    List.replicate (count - ds.length) '0' ++ ds
  let lead := if m = 0 then 0 else e + bits
  let (whole, fraction) := match places with
    | none => (m >>> bits, withoutZeros ('.' :: digits (m % (1 <<< bits)) (bits / 4)))
    | some places =>
      let kept := min (4 * places) bits
      let n := divideEven m (1 <<< (bits - kept))
      (n >>> kept, withoutEnd ('.' :: (digits (n % (1 <<< kept)) (kept / 4) ++
        List.replicate (places - kept / 4) '0')))
  let fraction := if fraction.isEmpty ∧ always then ['.'] else fraction
  let (whole, lead) := if whole = 16 then (1, lead + 4) else (whole, lead)
  "0x".toList ++ Nat.toDigits 16 whole ++ fraction ++ exponentChars 'p' 1 lead
where
  /-- A point that nothing follows is left out. -/
  withoutEnd : Raw → Raw
    | ['.'] => []
    | r => r

/-- The magnitude of a finite number in a style; `always` keeps the point. -/
def magnitudeChars (f : Format) (style : Style) (always : Bool) (places : Option Nat) (m : Nat)
    (e : Int) : Raw :=
  match style with
  | .fixed => fixedChars always (places.getD 6) m e
  | .scientific => scientificChars always (places.getD 6) m e
  | .general => generalChars always (places.getD 6) m e
  | .hexadecimal => hexadecimalChars f always places m e

end NetTrial.Host.Floating
