import NetTrial.Number.Reading
/-!
# JSON values

One type serves the writer and the reader. The reader is lenient on purpose: a document
that stops being JSON at some place still gives the value read so far, with `broken` at
that place. What asks for data walks the value in document order and so meets the faults of
a document in the order in which they stand in it. The writer is only given values without
such marks.
-/

namespace NetTrial

open Number

/-- The text of a string token. -/
inductive Json.Token where
  /-- A readable text. -/
  | read (text : String)
  /-- A closed string token whose content is no text: bytes that are not UTF-8, or an escape
  that names half a character. Only what nobody asks for may hold one. -/
  | garbled
  deriving DecidableEq, Repr, Inhabited

/-- A JSON value, members in document order and repeated names kept. -/
inductive Json where
  /-- The value null. -/
  | null
  /-- A truth value. -/
  | bool (value : Bool)
  /-- A number as it is spelled. -/
  | number (spelling : Spelling)
  /-- A string. -/
  | text (token : Json.Token)
  /-- An array. -/
  | array (items : List Json)
  /-- An object. -/
  | object (members : List (Json.Token × Json))
  /-- The place where the document stops being JSON. -/
  | broken
  deriving Repr, Inhabited

namespace Json

/-- A string value. -/
def string (s : String) : Json := .text (.read s)

/-- A member of an object. -/
def member (name : String) (value : Json) : Token × Json := (.read name, value)

/-- A natural number. -/
def nat (n : Nat) : Json := .number (.ofNat n)

/-- An integer. -/
def int (n : Int) : Json := .number (.ofInt n)

/-- A value that may be absent, absence being null. -/
def optional {α : Type} (encode : α → Json) : Option α → Json
  | none => .null
  | some a => encode a

/-- An array of encoded items. -/
def list {α : Type} (encode : α → Json) (items : List α) : Json := .array (items.map encode)

/-- A single-precision number; null when it is not finite. -/
def single (x : Single) : Json :=
  optional .number (Spelling.ofBits? .single .single x.bits.toNat)

/-- A double-precision number; null when it is not finite. -/
def double (x : Double) : Json :=
  optional .number (Spelling.ofBits? .double .double x.bits.toNat)

end Json

end NetTrial
