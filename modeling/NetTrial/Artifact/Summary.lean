import NetTrial.Dataset.Npy
/-!
# Compiled artifacts

The compiler's artifact opens with eight little-endian words, then a table with two words
for each layer, then the layers' bodies. `inspect` reads header and table and checks that
the bodies that the table declares fit the file. The count of layers and the sizes of the
bodies come from the file: the running total is tested against the word limit entry by
entry, the sum that is at last compared with the length of the file is not, and keeps only
what a word holds.
-/

namespace NetTrial.Artifact

open Text

/-- One entry of the layer table. -/
structure Layer where
  /-- The kind of the layer. -/
  kind : Nat
  /-- The declared size of its body in bytes. -/
  bodySize : Nat
  deriving DecidableEq, Repr

/-- What header and table of an artifact say. -/
structure Summary where
  /-- The version of the format. -/
  version : Nat
  /-- The flag bits. -/
  flags : Nat
  /-- The target architecture. -/
  arch : Nat
  /-- The highest start address. -/
  maxStartAddress : Nat
  /-- The main memory in use. -/
  mainMemUsage : Nat
  /-- Where the output lies in main memory. -/
  mainMemOutputAddress : Nat
  /-- The bytes of the output. -/
  mainMemOutputSize : Nat
  /-- The layer table. -/
  layers : List Layer
  deriving DecidableEq, Repr

/-- The width of the weights: eight bits when the lowest flag is set, else sixteen. -/
def Summary.weightsBits (s : Summary) : Nat := if s.flags % 2 = 1 then 8 else 16

/-- What is wrong with an artifact. -/
inductive Fault where
  /-- The file ends in the header. -/
  | headerTruncated
  /-- The version is not the known one. -/
  | version
  /-- The count of layers is no word. -/
  | countTooLarge
  /-- The words of the table cannot be counted. -/
  | tableOverflow
  /-- The file ends in the layer table. -/
  | tableTruncated
  /-- The size of the declared bodies is no word. -/
  | bodiesOverflow
  /-- The declared bodies are larger than the rest of the file. -/
  | bodiesTooLarge
  deriving DecidableEq, Repr

/-- The stable code of all artifact faults. -/
def Fault.reasonCode (_ : Fault) : String := "io_kmodel_invalid"

/-- The text of an artifact fault. -/
def Fault.message : Fault → String
  | .headerTruncated => "kmodel truncated before end of header"
  | .version => "unsupported kmodel version"
  | .countTooLarge => "kmodel layer count exceeds usize"
  | .tableOverflow => "kmodel layer table overflowed"
  | .tableTruncated => "kmodel truncated before end of layer table"
  | .bodiesOverflow => "kmodel layer bodies overflowed"
  | .bodiesTooLarge => "kmodel layer bodies exceed artifact size"

/-- The known version. -/
def knownVersion : Nat := 3

/-- The bytes of the header. -/
def headerLength : Nat := 32

/-- The word at a position of the file, counted in words. -/
def word? (bytes : Bytes) (index : Nat) : Option Nat :=
  let field := (bytes.drop (4 * index)).take 4
  if field.length = 4 then some (Npy.littleEndian field) else none

/-- The word at a position of the header. -/
def headerWord (bytes : Bytes) (index : Nat) : Except Fault Nat :=
  match word? bytes index with
  | some n => .ok n
  | none => .error .headerTruncated

/-- A sum of words of which a word keeps what it holds. -/
def wrappingAdd (a b : Nat) : Nat := (a + b) % wordLimit

/-- A product of words of which a word keeps what it holds. -/
def wrappingMul (a b : Nat) : Nat := a * b % wordLimit

/-- A product of words, or the largest word below it. -/
def saturatingMul (a b : Nat) : Nat := min (a * b) (wordLimit - 1)

/-- Some entries of the table from one on, and the sizes of their bodies added to a total. -/
def readLayers (bytes : Bytes) : (count entry total : Nat) → Except Fault (List Layer × Nat)
  | 0, _, total => .ok ([], total)
  | count + 1, entry, total => do
    let base := headerLength / 4 + entry * 2
    let kind ← headerWord bytes base
    let bodySize ← headerWord bytes (base + 1)
    match checkedAdd total bodySize with
    | none => .error .bodiesOverflow
    | some total =>
      let (layers, total) ← readLayers bytes count (entry + 1) total
      return (⟨kind, bodySize⟩ :: layers, total)

/-- Reads the header and the layer table of an artifact. -/
def inspect (bytes : Bytes) : Except Fault Summary := do
  let version ← headerWord bytes 0
  if version ≠ knownVersion then .error .version
  let count ← headerWord bytes 3
  if wordLimit ≤ count then .error .countTooLarge
  match checkedMul count 2 with
  | none => .error .tableOverflow
  | some tableWords =>
    if bytes.length < wrappingAdd headerLength (saturatingMul tableWords 4) then
      .error .tableTruncated
    let (layers, bodies) ← readLayers bytes count 0 0
    let needed := wrappingAdd (wrappingAdd headerLength (wrappingMul tableWords 4)) bodies
    if bytes.length < needed then .error .bodiesTooLarge
    return {
      version := version
      flags := ← headerWord bytes 1
      arch := ← headerWord bytes 2
      maxStartAddress := ← headerWord bytes 4
      mainMemUsage := ← headerWord bytes 5
      mainMemOutputAddress := ← headerWord bytes 6
      mainMemOutputSize := ← headerWord bytes 7
      layers := layers }

end NetTrial.Artifact
