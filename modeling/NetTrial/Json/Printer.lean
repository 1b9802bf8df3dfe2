import NetTrial.Json.Value
import NetTrial.Text.Utf8
/-!
# Writing JSON

Two forms are written. The pretty form gives every item and member a line of its own, two
columns further in at each level, and keeps an empty array or object on one line. The
compact form has no blanks at all. In strings only quotes, backslashes and control
characters are escaped.
-/

namespace NetTrial.Json

open Number

/-- A character inside a string token. -/
def escapeChar (c : Char) : List Char :=
  if c = '"' then ['\\', '"']
  else if c = '\\' then ['\\', '\\']
  else if c = '\n' then ['\\', 'n']
  else if c = '\r' then ['\\', 'r']
  else if c = '\t' then ['\\', 't']
  else if c = '\x08' then ['\\', 'b']
  else if c = '\x0c' then ['\\', 'f']
  else if c.toNat < 0x20 then
    ['\\', 'u', '0', '0', Nat.digitChar (c.toNat / 16), Nat.digitChar (c.toNat % 16)]
  else [c]

/-- A string token. -/
def quoted (s : String) : List Char := '"' :: (s.toList.flatMap escapeChar ++ ['"'])

/-- The token of a text; a garbled one has no written form. -/
def Token.chars : Token → List Char
  | .read s => quoted s
  | .garbled => []

/-- The exponent of a number, a plus sign written before a positive one. -/
def exponentChars : Option Int → List Char
  | none => []
  | some e => 'e' :: (if e < 0 then '-' else '+') :: digitsOf e.natAbs

/-- A number. -/
def numberChars (n : Spelling) : List Char :=
  (if n.negative then ['-'] else []) ++ digitsOf n.whole ++
    (if n.fraction.isEmpty then [] else '.' :: n.fraction.map fun d => Nat.digitChar d.val) ++
    exponentChars n.exponent

/-- The blanks between two tokens of a written form: none, or a new line and the indentation
of a level. -/
inductive Form where
  /-- No blanks. -/
  | compact
  /-- One line for each item. -/
  | pretty
  deriving DecidableEq

namespace Form

/-- What stands before an item at a level, or before the bracket that closes it. -/
def lineBreak (form : Form) (level : Nat) : List Char :=
  match form with
  | .compact => []
  | .pretty => '\n' :: List.replicate (2 * level) ' '

/-- What stands between a name and its value. -/
def colon (form : Form) : List Char :=
  match form with
  | .compact => [':']
  | .pretty => [':', ' ']

end Form

mutual

/-- The characters of a value that stands at a level. -/
def chars (form : Form) (level : Nat) : Json → List Char
  | .null => ['n', 'u', 'l', 'l']
  | .bool true => ['t', 'r', 'u', 'e']
  | .bool false => ['f', 'a', 'l', 's', 'e']
  | .number n => numberChars n
  | .text t => t.chars
  | .array [] => ['[', ']']
  | .array (item :: items) =>
    '[' :: (form.lineBreak (level + 1) ++ chars form (level + 1) item ++
      itemChars form level items)
  | .object [] => ['\x7b', '\x7d']
  | .object ((name, value) :: members) =>
    '\x7b' :: (form.lineBreak (level + 1) ++ name.chars ++ form.colon ++
      chars form (level + 1) value ++ memberChars form level members)
  | .broken => []

/-- The items after the first, each behind a comma, and the closing bracket. -/
def itemChars (form : Form) (level : Nat) : List Json → List Char
  | [] => form.lineBreak level ++ [']']
  | item :: items =>
    ',' :: (form.lineBreak (level + 1) ++ chars form (level + 1) item ++
      itemChars form level items)

/-- The members after the first, each behind a comma, and the closing brace. -/
def memberChars (form : Form) (level : Nat) : List (Token × Json) → List Char
  | [] => form.lineBreak level ++ ['\x7d']
  | (name, value) :: members =>
    ',' :: (form.lineBreak (level + 1) ++ name.chars ++ form.colon ++
      chars form (level + 1) value ++ memberChars form level members)

end

/-- The pretty text of a value. -/
def pretty (j : Json) : String := String.ofList (chars .pretty 0 j)

/-- The bytes of the pretty text of a value. -/
def prettyBytes (j : Json) : Text.Bytes := Text.encodeChars (chars .pretty 0 j)

/-- The bytes of the compact text of a value. -/
def compactBytes (j : Json) : Text.Bytes := Text.encodeChars (chars .compact 0 j)

/-- The bytes of the pretty text are those of its characters. -/
theorem prettyBytes_eq (j : Json) : j.prettyBytes = Text.encode j.pretty :=
  (Text.encode_ofList _).symm

end NetTrial.Json
