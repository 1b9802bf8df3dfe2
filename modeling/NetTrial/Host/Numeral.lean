import NetTrial.Host.Raw
/-!
# Numerals

An integer may have blanks and a sign in front. Its base is read off its opening when no base
is given: a zero and an `x` open a hexadecimal numeral, a zero an octal one. A numeral that
does not fit its word stands for the nearest end of the word.
-/

namespace NetTrial.Host

/-- The value of a digit in a base up to sixteen. -/
def digit? (base : Nat) (c : Char) : Option Nat :=
  let n :=
    if '0' ≤ c ∧ c ≤ '9' then c.toNat - '0'.toNat
    else if 'a' ≤ c ∧ c ≤ 'f' then c.toNat - 'a'.toNat + 10
    else if 'A' ≤ c ∧ c ≤ 'F' then c.toNat - 'A'.toNat + 10
    else 16
  if n < base then some n else none

/-- Reads up to `most` digits and gives their value, behind those read so far, and what
follows. -/
def takeDigits (base acc : Nat) : (most : Nat) → Raw → Nat × Raw
  | 0, cs => (acc, cs)
  | _ + 1, [] => (acc, [])
  | most + 1, c :: cs =>
    match digit? base c with
    | some d => takeDigits base (acc * base + d) most cs
    | none => (acc, c :: cs)

/-- The sign at the front of a text and what follows it. -/
def takeSign : Raw → Bool × Raw
  | '-' :: rest => (true, rest)
  | '+' :: rest => (false, rest)
  | r => (false, r)

/-- A numeral without its sign, and what follows it; none if the text opens with none. -/
def magnitude? (base : Option Nat) (r : Raw) : Option (Nat × Raw) :=
  let digits (base : Nat) (r : Raw) : Option (Nat × Raw) :=
    let (n, rest) := takeDigits base 0 r.length r
    if rest.length = r.length then none else some (n, rest)
  match base with
  | some base => digits base r
  | none =>
    match r with
    | '0' :: x :: rest =>
      let hexadecimal := if x = 'x' ∨ x = 'X' then digits 16 rest else none
      match hexadecimal with
      | some found => some found
      | none => digits 8 r
    | '0' :: _ => digits 8 r
    | _ => digits 10 r

/-- A numeral with its sign, and what follows it. -/
def numeral? (base : Option Nat) (r : Raw) : Option (Int × Raw) :=
  let (negative, r) := takeSign (r.dropWhile isSpace)
  (magnitude? base r).map fun (n, rest) => (if negative then -(n : Int) else n, rest)

/-- The least and the greatest signed word of 64 bits. -/
def leastWord : Int := -0x8000000000000000

/-- The greatest signed word of 64 bits. -/
def greatestWord : Int := 0x7FFFFFFFFFFFFFFF

/-- Whether a number is a signed word. -/
def isWord (n : Int) : Bool := leastWord ≤ n && n ≤ greatestWord

/-- The signed word nearest to a number. -/
def clampWord (n : Int) : Int := max leastWord (min n greatestWord)

/-- A number in decimal. -/
def decimal (n : Int) : Raw := (toString n).toList

/-- A whole text as a number of at most 64 bits, blanks around it allowed. Without a base a
text of blanks only is zero. -/
def wholeNumber? (base : Option Nat) (r : Raw) : Option Int :=
  match numeral? base r with
  | some (n, rest) => if isWord n ∧ rest.all isSpace then some n else none
  | none => if base = none ∧ r.all isSpace then some 0 else none

end NetTrial.Host
