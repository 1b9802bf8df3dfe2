import NetTrial.Dataset.Format
/-!
# The npy header

An npy file opens with six fixed bytes, a version and the length of a text that spells a
dictionary: element type, element order and shape. The writer pads the dictionary so that
the elements start at a multiple of 64 bytes. The reader looks keys up by their first
occurrence in the text and takes their values from what follows.
-/

namespace NetTrial.Npy

open Number Text

/-- What an npy header says. -/
structure Header where
  /-- The dimensions. -/
  shape : Shape
  /-- The element type. -/
  kind : ElementType
  deriving DecidableEq, Repr

/-- The bytes that every npy file opens with. -/
def magic : Bytes := [0x93, 0x4E, 0x55, 0x4D, 0x50, 0x59]

/-- The longest header, in bytes, that is read. -/
def longestHeader : Nat := 65536

/-- The longest header, in bytes, whose length a file of the first version can record. -/
def longestWritten : Nat := 65535

/-- The largest number of dimensions. -/
def largestRank : Nat := 32

/-- The written name of an element type. -/
def descriptor : ElementType → String
  | .u8 => "|u1"
  | .f32 => "<f4"

/-- The element type of a name; single bytes may be named with or without an order. -/
def ofDescriptor (name : String) : Except DatasetError ElementType :=
  if name = "|u1" ∨ name = "<u1" then .ok .u8
  else if name = "<f4" then .ok .f32
  else .error (.descriptor name)

/-- An element type is read back from its written name. -/
theorem ofDescriptor_descriptor (kind : ElementType) : ofDescriptor (descriptor kind) = .ok kind := by
  cases kind <;> rfl

/-! ## Writing -/

/-- A shape as a tuple; one dimension alone is followed by a comma. -/
def tupleChars : Shape → List Char
  | [] => ['(', ')']
  | [d] => '(' :: (digitsOf d ++ [',', ')'])
  | d :: ds =>
    '(' :: (digitsOf d ++ ds.flatMap (fun n => ',' :: ' ' :: digitsOf n) ++ [')'])

/-- The dictionary of a header. -/
def dictionaryChars (h : Header) : List Char :=
  "\x7b'descr': '".toList ++ (descriptor h.kind).toList ++
    "', 'fortran_order': False, 'shape': ".toList ++ tupleChars h.shape ++ ", \x7d".toList

/-- The bytes in front of the header text in a file of the first version. -/
def preambleLength : Nat := 10

/-- The header text: the dictionary, blanks up to the boundary and a new line. -/
def headerChars (h : Header) : List Char :=
  let dictionary := dictionaryChars h
  let unpadded := preambleLength + dictionary.length + 1
  dictionary ++ List.replicate ((64 - unpadded % 64) % 64) ' ' ++ ['\n']

/-- The two bytes of a length, the less significant first. -/
def lengthBytes (n : Nat) : Bytes := [UInt8.ofNat n, UInt8.ofNat (n / 256)]

/-- Writes an npy file of the first version. -/
def write (h : Header) (payload : Bytes) : Except DatasetError Bytes :=
  if largestRank < h.shape.length then .error (.write .rankBudget)
  else
    match checkPayload h.shape payload.length h.kind with
    | .error _ => .error (.write .payloadMismatch)
    | .ok _ =>
      let header := encodeChars (headerChars h)
      if longestWritten < header.length then .error (.header .lengthBudget)
      else .ok (magic ++ [1, 0] ++ lengthBytes header.length ++ header ++ payload)

/-! ## Reading the dictionary -/

/-- The keys of a header. -/
def keys : List String := ["descr", "fortran_order", "shape"]

/-- A key in either kind of quotes. -/
def quotedKeys (key : String) : List (List Char) :=
  ['\x27' :: (key.toList ++ ['\x27']), '"' :: (key.toList ++ ['"'])]

/-- What follows a key and its colon. The first occurrence of the key in single quotes is
taken, or else the first in double quotes. -/
def valueAfter (key : String) (dictionary : List Char) : Except DatasetError (List Char) :=
  match (quotedKeys key).findSome? fun word => after? word dictionary with
  | none => .error (.header .fieldMissing)
  | some rest =>
    match dropBlanks rest with
    | ':' :: rest => .ok (dropBlanks rest)
    | _ => .error (.header .colonMissing)

/-- The text between a quote and the next one of its kind. -/
def quotedValue : List Char → Except DatasetError String
  | q :: rest =>
    if q = '\x27' ∨ q = '"' then
      if rest.contains q then .ok (String.ofList (rest.takeWhile (· != q)))
      else .error (.header .quoteUnclosed)
    else .error (.header .quoteMissing)
  | [] => .error (.header .quoteMissing)

/-- The value of a decimal digit. -/
def digitValue? (c : Char) : Option Nat :=
  if '0' ≤ c ∧ c ≤ '9' then some (c.toNat - '0'.toNat) else none

/-- The number that digits spell after those read so far. -/
def numberFrom? (acc : Nat) : List Char → Option Nat
  | [] => some acc
  | c :: cs => do numberFrom? (acc * 10 + (← digitValue? c)) cs

/-- A dimension: decimal digits, with or without a plus sign, that spell a word. -/
def dimension? (token : List Char) : Option Nat :=
  let digits := match token with
    | '+' :: rest => rest
    | token => token
  if digits.isEmpty then none
  else (numberFrom? 0 digits).filter (· < wordLimit)

/-- The entries of a tuple between its commas, blank ones left out. -/
def tupleEntries (inner : List Char) : List (List Char) :=
  ((splitOn ',' inner).map trimChars).filter (!·.isEmpty)

/-- The shape that a tuple spells. -/
def shapeOf (value : List Char) : Except DatasetError Shape :=
  match value with
  | '(' :: rest =>
    if rest.contains ')' then
      let inner := rest.takeWhile (· != ')')
      match (tupleEntries inner).mapM dimension? with
      | none => .error (.header .notDimension)
      | some shape =>
        if shape.length = 1 ∧ ¬ inner.contains ',' then .error (.header .singletonComma)
        else .ok shape
    else .error (.header .notTuple)
  | _ => .error (.header .notTuple)

/-- Whether a piece of the dictionary between two commas opens with a key. -/
def opensWithKey (piece : List Char) : Bool :=
  let piece := piece.dropWhile fun c => c = '\x7b' || c = ' '
  keys.any fun key => (quotedKeys key).any fun word => opensWith word piece

/-- How many pieces of the dictionary open with a key. -/
def keyCount (dictionary : List Char) : Nat := (splitOn ',' dictionary).countP opensWithKey

/-- Whether a dictionary stands in braces. -/
def isBraced (dictionary : List Char) : Bool :=
  dictionary.head? == some '\x7b' && dictionary.getLast? == some '\x7d'

/-- Reads the header text. -/
def readHeader (bytes : Bytes) : Except DatasetError Header := do
  let text ← match decodeChars? bytes with
    | some text => pure text
    | none => .error (.header .notText)
  let dictionary := dropTrailingBlanks text
  if ¬ isBraced dictionary then .error (.header .notBraced)
  if keyCount dictionary ≠ keys.length then .error (.header .wrongKeys)
  let kind ← ofDescriptor (← quotedValue (← valueAfter "descr" dictionary))
  let order ← valueAfter "fortran_order" dictionary
  if opensWith "True".toList order then .error (.header .columnMajor)
  if ¬ opensWith "False".toList order then .error (.header .orderUnknown)
  let shape ← shapeOf (← valueAfter "shape" dictionary)
  if largestRank < shape.length then .error (.header .rankBudget)
  let _ ← shape.elementCount.mapError DatasetError.ofShape
  return ⟨shape, kind⟩

/-! ## Reading the file -/

/-- The version of a file that opens like an npy file; three versions are known. -/
def version (bytes : Bytes) : Except DatasetError (Nat × Nat) :=
  if bytes.take 6 = magic then
    match bytes.drop 6 with
    | major :: minor :: _ =>
      if (major = 1 ∨ major = 2 ∨ major = 3) ∧ minor = 0 then .ok (major.toNat, minor.toNat)
      else .error .magic
    | _ => .error .magic
  else .error .magic

/-- The number that bytes spell, the least significant first. -/
def littleEndian : Bytes → Nat
  | [] => 0
  | b :: bs => b.toNat + 256 * littleEndian bs

/-- Where the header text starts and how long it is. The first version records the length in
two bytes, the others in four. -/
def headerSpan (bytes : Bytes) (major : Nat) : Except DatasetError (Nat × Nat) :=
  let width := if major = 1 then 2 else 4
  let field := (bytes.drop 8).take width
  if field.length < width then .error (.header .lengthTruncated)
  else
    let length := littleEndian field
    if length = 0 ∨ longestHeader < length then .error (.header .lengthBudget)
    else if bytes.length < 8 + width + length then .error (.header .headerTruncated)
    else .ok (8 + width, length)

/-- Reads an npy file: its header and the bytes of its elements, which are all that follows. -/
def read (bytes : Bytes) : Except DatasetError (Header × Bytes) := do
  let (major, _) ← version bytes
  let (start, length) ← headerSpan bytes major
  let header ← readHeader ((bytes.drop start).take length)
  let body := bytes.drop (start + length)
  let _ ← checkPayload header.shape body.length header.kind
  return (header, body)

/-- Writes a tensor as an npy file. -/
def writeTensor (t : Tensor) : Except DatasetError Bytes :=
  write ⟨t.shape, t.elementType⟩ t.elements.toBytes

/-- Reads a tensor from an npy file. -/
def readTensor (bytes : Bytes) : Except DatasetError Tensor := do
  let (header, body) ← read bytes
  Tensor.ofPayload header.shape header.kind body

end NetTrial.Npy

namespace NetTrial

/-- Writes a tensor file of a format. -/
def Tensor.toFile (t : Tensor) : DatasetFormat → Except DatasetError Text.Bytes
  | .raw => .ok t.elements.toBytes
  | .npy => Npy.writeTensor t

/-- Reads a tensor file of a format. Shape and element type are those of a raw file only. -/
def Tensor.ofFile (bytes : Text.Bytes) (format : DatasetFormat) (rawShape : Shape)
    (rawKind : ElementType) : Except DatasetError Tensor :=
  match format with
  | .raw => RawFile.decode bytes rawShape rawKind
  | .npy => Npy.readTensor bytes

end NetTrial
