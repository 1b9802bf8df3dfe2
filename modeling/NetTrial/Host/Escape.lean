import NetTrial.Host.Numeral
/-!
# Backslash escapes

Programs that print text read escapes in it: a backslash and a letter stand for a control
character, a backslash and digits for a byte. The programs differ in a few escapes, which a
table names. A backslash that opens no escape stands for itself.
-/

namespace NetTrial.Host

/-- The escapes in which programs differ. -/
structure Escapes where
  /-- Whether `x` opens two hexadecimal digits. -/
  hexadecimal : Bool
  /-- Whether digits that are missing behind `x` are a fault, `u` and `U` open a code point, and
  an escape that is not known takes the character behind it along. -/
  strict : Bool
  /-- Whether a quotation mark may be escaped. -/
  quote : Bool
  /-- Whether `c` ends all output. -/
  stop : Bool
  /-- Whether octal digits may be preceded by a zero that does not count. -/
  zero : Bool
  deriving DecidableEq, Repr

/-- What stands for a piece of text. -/
inductive Unescaped where
  /-- A text. -/
  | text (r : Raw)
  /-- The end of all output. -/
  | stop
  /-- A fault. -/
  | fault (message : String)
  deriving DecidableEq, Repr

namespace Escapes

/-- The character of a letter. -/
def letter? (e : Escapes) (c : Char) : Option Char :=
  if c = 'a' then some '\x07'
  else if c = 'b' then some '\x08'
  else if c = 'e' then some '\x1b'
  else if c = 'f' then some '\x0c'
  else if c = 'n' then some '\n'
  else if c = 'r' then some '\r'
  else if c = 't' then some '\t'
  else if c = 'v' then some '\x0b'
  else if c = '\\' then some '\\'
  else if c = '"' ∧ e.quote then some '"'
  else none

/-- The byte of a number, higher bits dropped. -/
def byte (n : Nat) : Raw := [Char.ofNat (n % 256)]

/-- The complaint on digits that are missing. -/
def noDigits : String := "missing hexadecimal number in escape"

/-- A number as so many hexadecimal digits. -/
def paddedHex (count n : Nat) : Raw :=
  let ds := Nat.toDigits 16 n
  List.replicate (count - ds.length) '0' ++ ds

/-- What a code point with so many digits stands for: itself in ASCII, and its own spelling
outside of it. Code points that need no escape are refused. -/
def codePoint (letter : Char) (count : Nat) (cs : Raw) : Unescaped × Raw :=
  let (n, rest) := takeDigits 16 0 count cs
  if cs.length < rest.length + count then (.fault noDigits, rest)
  else if (n ≤ 0x9F ∧ n ≠ 0x24 ∧ n ≠ 0x40 ∧ n ≠ 0x60) ∨ (0xD800 ≤ n ∧ n ≤ 0xDFFF) then
    (.fault ("invalid universal character name \\" ++ shown (letter :: paddedHex count n)), rest)
  else if n < 0x80 then (.text (byte n), rest)
  else if n < 0x10000 then (.text ('\\' :: 'u' :: (paddedHex 4 n).map Char.toUpper), rest)
  else (.text ('\\' :: 'U' :: (paddedHex 8 n).map Char.toUpper), rest)

/-- What a backslash stands for, given what follows it, and what is left. -/
def read (e : Escapes) (after : Raw) : Unescaped × Raw :=
  match after with
  | [] => (.text ['\\'], [])
  | c :: cs =>
    if c = 'c' ∧ e.stop then (.stop, cs)
    else if c = 'x' ∧ e.hexadecimal ∧ (cs.head?.bind (digit? 16)).isSome then
      let (n, rest) := takeDigits 16 0 2 cs
      (.text (byte n), rest)
    else if c = 'x' ∧ e.strict then (.fault noDigits, cs)
    else if c = 'u' ∧ e.strict then codePoint c 4 cs
    else if c = 'U' ∧ e.strict then codePoint c 8 cs
    else if c = '0' ∧ e.zero then
      let (n, rest) := takeDigits 8 0 3 cs
      (.text (byte n), rest)
    else if (digit? 8 c).isSome then
      let (n, rest) := takeDigits 8 0 3 (c :: cs)
      (.text (byte n), rest)
    else match e.letter? c with
      | some d => (.text [d], cs)
      | none => if e.strict then (.text ['\\', c], cs) else (.text ['\\'], c :: cs)

/-- A text with its escapes undone, and what ends it early, if anything does. -/
def expandFrom (e : Escapes) : (fuel : Nat) → Raw → Raw × Option Unescaped
  | 0, _ => ([], none)
  | _, [] => ([], none)
  | fuel + 1, c :: cs =>
    if c = '\\' then
      match e.read cs with
      | (.text r, rest) =>
        let (more, ended) := expandFrom e fuel rest
        (r ++ more, ended)
      | (ended, _) => ([], some ended)
    else
      let (more, ended) := expandFrom e fuel cs
      (c :: more, ended)

/-- A text with its escapes undone, and what ends it early, if anything does. -/
def expand (e : Escapes) (r : Raw) : Raw × Option Unescaped := e.expandFrom r.length r

end Escapes

end NetTrial.Host
