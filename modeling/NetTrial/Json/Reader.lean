import NetTrial.Json.Value
import NetTrial.Text.Utf8
/-!
# Reading JSON

The reader turns the units of a byte string into a value. It never fails: where the input
stops being JSON the value holds `broken`, and nothing after that place is read. A string
token is scanned to its closing quote before its escapes are put together, so that a token
that names half a character still ends where it ends.
-/

namespace NetTrial.Json

open Number

/-- The input of the reader: characters, and `none` for what is no text. -/
abbrev Input := List (Option Char)

/-- The input after the blanks of JSON, which are four characters only. -/
def skipBlanks : Input → Input
  | some ' ' :: rest => skipBlanks rest
  | some '\t' :: rest => skipBlanks rest
  | some '\n' :: rest => skipBlanks rest
  | some '\r' :: rest => skipBlanks rest
  | input => input

/-- The input after a word, if it opens with it. -/
def afterWord? : List Char → Input → Option Input
  | [], input => some input
  | c :: cs, some d :: rest => if c = d then afterWord? cs rest else none
  | _ :: _, _ => none

/-! ## Strings -/

/-- A piece of a string token. -/
inductive Piece where
  /-- A character, bare or behind a backslash. -/
  | char (c : Char)
  /-- A UTF-16 unit named by its four hexadecimal digits. -/
  | named (code : Nat)
  /-- What is no text. -/
  | noText
  deriving DecidableEq, Repr

/-- The value of a hexadecimal digit of either case. -/
def hexValue? (c : Char) : Option Nat :=
  if '0' ≤ c ∧ c ≤ '9' then some (c.toNat - '0'.toNat)
  else if 'a' ≤ c ∧ c ≤ 'f' then some (c.toNat - 'a'.toNat + 10)
  else if 'A' ≤ c ∧ c ≤ 'F' then some (c.toNat - 'A'.toNat + 10)
  else none

/-- The value of four hexadecimal digits. -/
def hexFour? (a b c d : Char) : Option Nat := do
  return (((← hexValue? a) * 16 + (← hexValue? b)) * 16 + (← hexValue? c)) * 16 + (← hexValue? d)

/-- The character that a letter behind a backslash stands for. -/
def shortEscape? (c : Char) : Option Char :=
  match c with
  | '"' => some '"'
  | '\\' => some '\\'
  | '/' => some '/'
  | 'b' => some '\x08'
  | 'f' => some '\x0c'
  | 'n' => some '\n'
  | 'r' => some '\r'
  | 't' => some '\t'
  | _ => none

/-- The pieces of a string token up to its closing quote, and the input after that. There
are none when the token does not end, holds a bare control character or an escape that JSON
does not have. -/
def pieces? : Input → Option (List Piece × Input)
  | [] => none
  | none :: rest => (pieces? rest).map fun (ps, r) => (.noText :: ps, r)
  | some '"' :: rest => some ([], rest)
  | some '\\' :: some 'u' :: some a :: some b :: some c :: some d :: rest =>
    match hexFour? a b c d with
    | none => none
    | some code => (pieces? rest).map fun (ps, r) => (.named code :: ps, r)
  | some '\\' :: some e :: rest =>
    match shortEscape? e with
    | none => none
    | some c => (pieces? rest).map fun (ps, r) => (.char c :: ps, r)
  | some '\\' :: _ => none
  | some c :: rest =>
    if c.toNat < 0x20 then none else (pieces? rest).map fun (ps, r) => (.char c :: ps, r)

/-- The text of the pieces. A unit that names the first half of a character must be followed
by one that names a second half, and a second half stands nowhere else. -/
def assemble? : List Piece → Option (List Char)
  | [] => some []
  | .char c :: ps => (assemble? ps).map (c :: ·)
  | .noText :: _ => none
  | .named high :: .named low :: ps =>
    if 0xD800 ≤ high ∧ high < 0xDC00 then
      if 0xDC00 ≤ low ∧ low < 0xE000 then
        (assemble? ps).map
          (Char.ofNat (0x10000 + (high - 0xD800) * 0x400 + (low - 0xDC00)) :: ·)
      else none
    else if 0xDC00 ≤ high ∧ high < 0xE000 then none
    else (assemble? (.named low :: ps)).map (Char.ofNat high :: ·)
  | .named code :: ps =>
    if 0xD800 ≤ code ∧ code < 0xE000 then none
    else (assemble? ps).map (Char.ofNat code :: ·)

/-- The token that a list of pieces makes. -/
def tokenOf (ps : List Piece) : Token :=
  match assemble? ps with
  | some cs => .read (String.ofList cs)
  | none => .garbled

/-! ## Numbers -/

/-- The value of a decimal digit. -/
def digit? (c : Char) : Option (Fin 10) :=
  if h : '0'.toNat ≤ c.toNat ∧ c.toNat ≤ '9'.toNat then
    some ⟨c.toNat - '0'.toNat, by have := h.2; have := h.1; simp at *; omega⟩
  else none

/-- The digits at the front of the input, and the input after them. -/
def digits : Input → List (Fin 10) × Input
  | some c :: rest =>
    match digit? c with
    | some d => ((digits rest).1.cons d, (digits rest).2)
    | none => ([], some c :: rest)
  | input => ([], input)

/-- The natural that digits spell. -/
def natOfDigits (ds : List (Fin 10)) : Nat := ds.foldl (fun n d => n * 10 + d.val) 0

/-- The whole part of a number: one zero, or digits that do not open with one. -/
def whole? (input : Input) : Option (Nat × Input) :=
  match digits input with
  | ([], _) => none
  | (d :: ds, rest) => if d.val = 0 ∧ ds ≠ [] then none else some (natOfDigits (d :: ds), rest)

/-- The digits behind the point, at least one if there is a point. -/
def fraction? : Input → Option (List (Fin 10) × Input)
  | some '.' :: rest =>
    match digits rest with
    | ([], _) => none
    | found => some found
  | input => some ([], input)

/-- The digits of an exponent, at least one, with a sign. -/
def signedExponent? (negative : Bool) (input : Input) : Option (Option Int × Input) :=
  match digits input with
  | ([], _) => none
  | (ds, rest) =>
    let n : Int := natOfDigits ds
    some (some (if negative then -n else n), rest)

/-- The exponent of a number, if it has one. -/
def exponent? : Input → Option (Option Int × Input)
  | some 'e' :: rest | some 'E' :: rest =>
    match rest with
    | some '+' :: rest => signedExponent? false rest
    | some '-' :: rest => signedExponent? true rest
    | rest => signedExponent? false rest
  | input => some (none, input)

/-- A number without its sign. -/
def unsigned? (negative : Bool) (input : Input) : Option (Spelling × Input) := do
  let (whole, input) ← whole? input
  let (fraction, input) ← fraction? input
  let (exponent, input) ← exponent? input
  return (⟨negative, whole, fraction, exponent⟩, input)

/-- A number. -/
def number? : Input → Option (Spelling × Input)
  | some '-' :: rest => unsigned? true rest
  | input => unsigned? false input

/-! ## Values -/

/-- A word of the language as a value; broken when the input holds something else. -/
def word (cs : List Char) (value : Json) (input : Input) : Json × Input :=
  match afterWord? cs input with
  | some rest => (value, rest)
  | none => (.broken, [])

mutual

/-- The value at the front of the input and the input after it. Each nested call has one
less fuel; twice the length of the input is enough. -/
def value : (fuel : Nat) → Input → Json × Input
  | 0, _ => (.broken, [])
  | fuel + 1, input =>
    match skipBlanks input with
    | some 'n' :: rest => word ['u', 'l', 'l'] .null rest
    | some 't' :: rest => word ['r', 'u', 'e'] (.bool true) rest
    | some 'f' :: rest => word ['a', 'l', 's', 'e'] (.bool false) rest
    | some '"' :: rest =>
      match pieces? rest with
      | some (ps, rest) => (.text (tokenOf ps), rest)
      | none => (.broken, [])
    | some '[' :: rest =>
      match skipBlanks rest with
      | some ']' :: rest => (.array [], rest)
      | rest => ((.array (items fuel rest).1), (items fuel rest).2)
    | some '\x7b' :: rest =>
      match skipBlanks rest with
      | some '\x7d' :: rest => (.object [], rest)
      | rest => ((.object (members fuel rest).1), (members fuel rest).2)
    | input =>
      match number? input with
      | some (n, rest) => (.number n, rest)
      | none => (.broken, [])

/-- The items of an array from the next one on, and the input after the closing bracket. -/
def items : (fuel : Nat) → Input → List Json × Input
  | 0, _ => ([.broken], [])
  | fuel + 1, input =>
    let (item, rest) := value fuel input
    match skipBlanks rest with
    | some ',' :: rest =>
      let (more, rest) := items fuel rest
      (item :: more, rest)
    | some ']' :: rest => ([item], rest)
    | _ => ([item, .broken], [])

/-- The members of an object from the next one on, and the input after the closing brace. -/
def members : (fuel : Nat) → Input → List (Token × Json) × Input
  | 0, _ => ([(.garbled, .broken)], [])
  | fuel + 1, input =>
    match skipBlanks input with
    | some '"' :: rest =>
      match pieces? rest with
      | none => ([(.garbled, .broken)], [])
      | some (ps, rest) =>
        match skipBlanks rest with
        | some ':' :: rest =>
          let (item, rest) := value fuel rest
          match skipBlanks rest with
          | some ',' :: rest =>
            let (more, rest) := members fuel rest
            ((tokenOf ps, item) :: more, rest)
          | some '\x7d' :: rest => ([(tokenOf ps, item)], rest)
          | _ => ([(tokenOf ps, item), (.garbled, .broken)], [])
        | _ => ([(.garbled, .broken)], [])
    | _ => ([(.garbled, .broken)], [])

end

/-- A document: its value, and whether nothing but blanks follows it. -/
structure Document where
  /-- The value. -/
  root : Json
  /-- Whether the document ends with the value. -/
  ends : Bool
  deriving Repr

/-- Reads a document from its units. -/
def readUnits (input : Input) : Document :=
  let (root, rest) := value (2 * input.length + 2) input
  ⟨root, (skipBlanks rest).isEmpty⟩

/-- Reads a document from characters. -/
def readChars (cs : List Char) : Document := readUnits (cs.map some)

/-- Reads a document from bytes. -/
def readBytes (bytes : Text.Bytes) : Document := readUnits (Text.units bytes)

/-- The bytes of some characters are read as these characters. -/
theorem readBytes_encodeChars (cs : List Char) :
    readBytes (Text.encodeChars cs) = readChars cs := by
  rw [readBytes, Text.units_encodeChars, readChars]

end NetTrial.Json
