import NetTrial.Text.Utf8
/-!
# Raw texts

Programs of the host work on bytes. A raw text is a list of bytes, each one shown as the
character with that code, so that the characters of the script language are written as
themselves. A text of the library becomes raw through its UTF-8 form and comes back by
lossy reading.
-/

namespace NetTrial.Host

open Text

/-- A text as the host holds it: every character stands for one byte. -/
abbrev Raw := List Char

/-- The raw text of some bytes. -/
def rawOfBytes (bytes : Bytes) : Raw := bytes.map fun b => Char.ofNat b.toNat

/-- The bytes of a raw text. -/
def bytesOfRaw (r : Raw) : Bytes := r.map fun c => UInt8.ofNat c.toNat

/-- The raw text of a text. -/
def rawOf (s : String) : Raw := rawOfBytes (encode s)

/-- The text of a raw text. -/
def textOfRaw (r : Raw) : String := decodeLossy (bytesOfRaw r)

/-- A raw text as a part of a message. Messages keep one character for one byte. -/
def shown (r : Raw) : String := String.ofList r

/-- Whether a character is a letter of ASCII or the low line. -/
def isNameStart (c : Char) : Bool := c.isAlpha || c == '_'

/-- Whether a character may stand in a name behind its first. -/
def isNameChar (c : Char) : Bool := c.isAlphanum || c == '_'

/-- Whether a raw text is a name. -/
def isName : Raw → Bool
  | [] => false
  | c :: cs => isNameStart c && cs.all isNameChar

/-- Whether a character is a blank of ASCII. -/
def isSpace (c : Char) : Bool := c == ' ' || (9 ≤ c.toNat && c.toNat ≤ 13)

end NetTrial.Host
