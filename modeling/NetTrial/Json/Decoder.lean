import NetTrial.Json.Reader
/-!
# From values to data

A decoder asks a value for data of one kind. It walks the value in document order, so the
first fault of a document is the one reported. What is asked for by name may stand in any
order, at most once; what nobody asks for is passed over as long as it is JSON. A record may
also be an array of its fields in order, with fields left out at the end.
-/

namespace NetTrial.Json

open Number

/-- Why a document does not give the data asked for. -/
inductive Fault where
  /-- The document is no JSON, or not of the kind asked for. -/
  | malformed
  /-- The document is of the kind asked for and names something that is not known. -/
  | refused (message : String)
  deriving DecidableEq, Repr

/-- The text of a fault. A malformed document has one fixed text. -/
def Fault.message : Fault → String
  | .malformed => "<json>"
  | .refused message => message

/-- The result of asking a value for data. -/
abbrev Decoded (α : Type) := Except Fault α

/-- The malformed result. -/
def malformed {α : Type} : Decoded α := .error .malformed

/-! ## Values that are passed over or kept whole -/

mutual

/-- Whether a value is JSON to its end; garbled texts are. -/
def isSound : Json → Bool
  | .broken => false
  | .array items => areSound items
  | .object members => haveSound members
  | _ => true

/-- Whether all items are JSON to their end. -/
def areSound : List Json → Bool
  | [] => true
  | item :: items => isSound item && areSound items

/-- Whether all members are JSON to their end. -/
def haveSound : List (Token × Json) → Bool
  | [] => true
  | (_, item) :: members => isSound item && haveSound members

end

mutual

/-- Whether a value can be kept whole, to be read once its kind is known: it is readable to
its end and nested at most `depth` deep. -/
def isKept : (depth : Nat) → Json → Bool
  | _, .broken => false
  | _, .text .garbled => false
  | _, .number n => n.toDouble?.isSome
  | 0, .array _ => false
  | depth + 1, .array items => areKept depth items
  | 0, .object _ => false
  | depth + 1, .object members => haveKept depth members
  | _, _ => true

/-- Whether all items can be kept whole. -/
def areKept (depth : Nat) : List Json → Bool
  | [] => true
  | item :: items => isKept depth item && areKept depth items

/-- Whether all members can be kept whole. -/
def haveKept (depth : Nat) : List (Token × Json) → Bool
  | [] => true
  | (name, item) :: members => name != .garbled && isKept depth item && haveKept depth members

end

/-- Containers may stand in one another this deep in a document. -/
def deepest : Nat := 127

/-! ## Single values -/

/-- A natural below a limit, spelled as an integer. -/
def asNat (limit : Nat) : Json → Decoded Nat
  | .number n => if n.isIntegral && !n.negative && n.whole < limit then .ok n.whole else malformed
  | _ => malformed

/-- A truth value. -/
def asBool : Json → Decoded Bool
  | .bool b => .ok b
  | _ => malformed

/-- A text. -/
def asText : Json → Decoded String
  | .text (.read s) => .ok s
  | _ => malformed

/-- A double-precision number. -/
def asDouble : Json → Decoded Double
  | .number n => match n.toDouble? with
    | some x => .ok x
    | none => malformed
  | _ => malformed

/-- Whether a spelling is an integer of 64 bits, with or without sign; minus zero is none. -/
def isWord (n : Spelling) : Bool :=
  n.isIntegral &&
    (if n.negative then 0 < n.whole && n.whole ≤ 0x8000000000000000
      else n.whole < 0x10000000000000000)

/-- A single-precision number: nearest to an integer of 64 bits, and nearest to the
double-precision number that any other spelling is read as. -/
def asSingle : Json → Decoded Single
  | .number n =>
    if isWord n then .ok ⟨(Format.single.round n.negative n.whole 1).toUInt32⟩
    else match n.toDouble? with
      | some x => .ok (Single.ofDouble x)
      | none => malformed
  | _ => malformed

/-- Items of one kind, in order. -/
def asList {α : Type} (item : Json → Decoded α) : Json → Decoded (List α)
  | .array items => items.mapM item
  | _ => malformed

/-- Exactly so many items of one kind. -/
def asTuple {α : Type} (count : Nat) (item : Json → Decoded α) (j : Json) : Decoded (List α) := do
  let items ← asList item j
  if items.length = count then .ok items else malformed

/-- Data that may be absent, absence being null. -/
def asOptional {α : Type} (item : Json → Decoded α) : Json → Decoded (Option α)
  | .null => .ok none
  | j => some <$> item j

/-- Where the content of a choice may be written though it has none. -/
inductive EmptyContent where
  /-- As null. -/
  | null
  /-- As null or as an empty object. -/
  | nullOrObject
  deriving DecidableEq

/-- Whether a value stands for no content. -/
def EmptyContent.accepts : EmptyContent → Json → Bool
  | _, .null => true
  | .nullOrObject, .object [] => true
  | _, _ => false

/-- One of several named choices: its name, or an object with that name and no content. -/
def asChoice {α : Type} (content : EmptyContent) (choice? : String → Option α) : Json → Decoded α
  | .text (.read s) => (choice? s).elim malformed .ok
  | .object [(.read s, j)] => if content.accepts j then (choice? s).elim malformed .ok else malformed
  | _ => malformed

/-! ## Records -/

/-- What a record asks for: its fields in order, and for each its name, the kind of its data
and how the data is read. -/
structure Record (F : Type) where
  /-- The fields in order. -/
  order : List F
  /-- The name of a field. -/
  name : F → String
  /-- The data of a field. -/
  data : F → Type
  /-- How the data of a field is read. -/
  decode : (f : F) → Json → Decoded (data f)

namespace Record

variable {F : Type} [DecidableEq F]

/-- The data read so far. -/
abbrev Filled (r : Record F) := (f : F) → Option (r.data f)

/-- No data. -/
def empty (r : Record F) : r.Filled := fun _ => none

/-- The data read so far with one more field. -/
def put (r : Record F) (got : r.Filled) (f : F) (data : r.data f) : r.Filled :=
  fun g => if h : g = f then some (h ▸ data) else got g

/-- The field of a name. -/
def field? (r : Record F) (name : String) : Option F := r.order.find? fun f => r.name f == name

/-- Reads one member. A field may be given once only. -/
def readMember (r : Record F) (got : r.Filled) : Token × Json → Decoded r.Filled
  | (.garbled, _) => malformed
  | (.read name, j) =>
    match r.field? name with
    | none => if j.isSound then .ok got else malformed
    | some f => if (got f).isSome then malformed else do return r.put got f (← r.decode f j)

/-- Reads the items of an array as the fields in order. -/
def readItems (r : Record F) (got : r.Filled) : List F → List Json → Decoded r.Filled
  | _, [] => .ok got
  | [], _ :: _ => malformed
  | f :: fs, j :: js => do readItems r (r.put got f (← r.decode f j)) fs js

/-- Reads the fields that a value gives. -/
def read (r : Record F) : Json → Decoded r.Filled
  | .object members => members.foldlM r.readMember r.empty
  | .array items => r.readItems r.empty r.order items
  | _ => malformed

end Record

/-- Data that has to be there. -/
def required {α : Type} : Option α → Decoded α
  | some a => .ok a
  | none => malformed

/-- Asks a whole document for data; nothing may follow the value. -/
def Document.decode {α : Type} (item : Json → Decoded α) (d : Document) : Decoded α := do
  let a ← item d.root
  if d.ends then .ok a else malformed

end NetTrial.Json
