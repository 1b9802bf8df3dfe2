import NetTrial.Tensor.Basic
/-!
# Dataset formats

A staged tensor file is either raw, the bare elements in little-endian order, or npy, the
same elements behind a header that carries shape and element type. A reader of a raw file
has to know both already.
-/

namespace NetTrial

open Number

/-- How a tensor file is encoded. -/
inductive DatasetFormat where
  /-- The bare elements. -/
  | raw
  /-- The elements behind a header. -/
  | npy
  deriving DecidableEq, Repr

/-- What is wrong with the header of an npy file. -/
inductive HeaderFault where
  /-- The file ends before the length of the header. -/
  | lengthTruncated
  /-- The header is empty or too long. -/
  | lengthBudget
  /-- The file ends before the header does. -/
  | headerTruncated
  /-- The header is no text. -/
  | notText
  /-- The dictionary does not stand in braces. -/
  | notBraced
  /-- The dictionary does not hold three of the known keys. -/
  | wrongKeys
  /-- A key is missing. -/
  | fieldMissing
  /-- No colon follows a key. -/
  | colonMissing
  /-- A value that has to be quoted is not. -/
  | quoteMissing
  /-- A quoted value does not end. -/
  | quoteUnclosed
  /-- The elements stand in column-major order. -/
  | columnMajor
  /-- The order of the elements is neither True nor False. -/
  | orderUnknown
  /-- The shape is no tuple. -/
  | notTuple
  /-- An entry of the shape is no dimension. -/
  | notDimension
  /-- A shape of one dimension lacks its comma. -/
  | singletonComma
  /-- The shape has too many dimensions. -/
  | rankBudget
  /-- The number of elements does not fit a word. -/
  | countOverflow
  /-- The number of bytes does not fit a word. -/
  | bytesOverflow
  deriving DecidableEq, Repr

/-- The text of a header fault. -/
def HeaderFault.message : HeaderFault → String
  | .lengthTruncated => "payload truncated before header length field"
  | .lengthBudget => "header bytes must be within bounded budget"
  | .headerTruncated => "payload truncated before declared header bytes"
  | .notText => "header bytes must decode as ascii"
  | .notBraced => "header dictionary must be wrapped in braces"
  | .wrongKeys => "header dictionary must contain exactly descr/fortran_order/shape keys"
  | .fieldMissing => "required header field is missing"
  | .colonMissing => "header field is missing ':' separator"
  | .quoteMissing => "header quoted value must start with quote"
  | .quoteUnclosed => "header quoted value missing closing quote"
  | .columnMajor => "fortran-ordered payloads are not supported"
  | .orderUnknown => "fortran_order field must be True or False"
  | .notTuple => "shape field must be a tuple literal"
  | .notDimension => "shape tuple entries must be usize"
  | .singletonComma => "singleton shape tuples must include trailing comma"
  | .rankBudget => "shape rank exceeds supported budget"
  | .countOverflow => "shape element-count overflowed"
  | .bytesOverflow => "expected payload bytes overflowed"

/-- Why a tensor cannot be written as npy. -/
inductive WriteFault where
  /-- The shape has too many dimensions. -/
  | rankBudget
  /-- The bytes are not as many as the shape asks for. -/
  | payloadMismatch
  deriving DecidableEq, Repr

/-- The text of a writing fault. -/
def WriteFault.message : WriteFault → String
  | .rankBudget => "shape rank exceeds supported budget"
  | .payloadMismatch => "payload bytes do not match shape element count"

/-- Why a tensor file is refused. -/
inductive DatasetError where
  /-- The file does not open like an npy file of a known version. -/
  | magic
  /-- The header or the shape is at fault. -/
  | header (fault : HeaderFault)
  /-- The element type is not known. -/
  | descriptor (name : String)
  /-- The tensor cannot be written. -/
  | write (fault : WriteFault)
  /-- The elements are too few or too many bytes. -/
  | incomplete (expected actual : Nat)
  /-- No format has this name. -/
  | unknownFormat (name : String)
  deriving DecidableEq, Repr

namespace DatasetError

/-- The stable code of a cause. -/
def reasonCode : DatasetError → String
  | .magic => "io_magic_invalid"
  | .header _ => "io_header_schema_invalid"
  | .descriptor _ => "io_dtype_descriptor_invalid"
  | .write _ => "io_write_contract_violation"
  | .incomplete .. => "io_read_payload_incomplete"
  | .unknownFormat _ => "io_dataset_format_unknown"

/-- The text of a cause. -/
def message : DatasetError → String
  | .magic => "invalid or unsupported npy magic/version"
  | .header fault => fault.message
  | .descriptor name => "dtype descriptor '" ++ name ++ "' is invalid or unsupported"
  | .write fault => fault.message
  | .incomplete expected actual =>
    "payload bytes must match shape/dtype footprint expected=" ++ natText expected ++
      " actual=" ++ natText actual
  | .unknownFormat name => "unknown dataset format '" ++ name ++ "'"

end DatasetError

namespace DatasetFormat

/-- The name of a format. -/
def name : DatasetFormat → String
  | .raw => "raw"
  | .npy => "npy"

/-- The file extension of a format. -/
def extension : DatasetFormat → String
  | .raw => "bin"
  | .npy => "npy"

/-- The format of a name; blanks around it and the case of its letters do not matter. -/
def parse (raw : String) : Except DatasetError DatasetFormat :=
  let word := Text.lowerAscii (Text.trim raw)
  if word = "raw" then .ok .raw
  else if word = "npy" then .ok .npy
  else .error (.unknownFormat (Text.trim raw))

end DatasetFormat

/-! ## The bytes of the elements -/

/-- The elements as bytes, words in little-endian order. -/
def Elements.toBytes : Elements → Text.Bytes
  | .f32 values => values.flatMap Single.toBytes
  | .u8 values => values

/-- The elements of a kind that bytes hold. -/
def Elements.ofBytes (kind : ElementType) (bytes : Text.Bytes) : Elements :=
  match kind with
  | .f32 => .f32 (Single.listOfBytes bytes)
  | .u8 => .u8 bytes

/-- Elements are read back from their bytes. -/
theorem Elements.ofBytes_toBytes (e : Elements) : ofBytes e.elementType e.toBytes = e := by
  cases e with
  | f32 values => simp [elementType, toBytes, ofBytes, Single.listOfBytes_flatMap]
  | u8 values => rfl

/-- A shape cause met while a tensor file is read or written. -/
def DatasetError.ofShape (_ : ShapeError) : DatasetError := .header .countOverflow

/-- The element count of a shape when so many bytes are exactly its elements. -/
def checkPayload (shape : Shape) (length : Nat) (kind : ElementType) :
    Except DatasetError Nat := do
  let count ← shape.elementCount.mapError DatasetError.ofShape
  match checkedMul count kind.itemSize with
  | none => .error (.header .bytesOverflow)
  | some expected =>
    if length = expected then return count else .error (.incomplete expected length)

/-- The tensor of a shape whose elements are given as bytes. -/
def Tensor.ofPayload (shape : Shape) (kind : ElementType) (bytes : Text.Bytes) :
    Except DatasetError Tensor :=
  (ofElements shape (.ofBytes kind bytes)).mapError DatasetError.ofShape

/-! ## Raw files -/

namespace RawFile

/-- Reads a raw file under a known shape. -/
def decode (bytes : Text.Bytes) (shape : Shape) (kind : ElementType) :
    Except DatasetError Tensor := do
  let _ ← checkPayload shape bytes.length kind
  Tensor.ofPayload shape kind bytes

/-- Reads a raw file of unknown shape as one row. -/
def decodeFlat (bytes : Text.Bytes) (kind : ElementType) : Except DatasetError Tensor :=
  let size := kind.itemSize
  if bytes.length % size = 0 then decode bytes [bytes.length / size] kind
  else .error (.incomplete (bytes.length - bytes.length % size) bytes.length)

end RawFile

end NetTrial
