import NetTrial.Shape.Permutation
import NetTrial.Text.Blank
/-!
# Tensors

A tensor is a shape and its elements in row-major order, single-precision words or bytes.
Elements are data: building, reshaping and rearranging a tensor moves them unchanged.
-/

namespace NetTrial

open Number

/-- The kinds of elements. -/
inductive ElementType where
  /-- Single-precision words. -/
  | f32
  /-- Bytes. -/
  | u8
  deriving DecidableEq, Repr

namespace ElementType

/-- The name under which a kind is recorded. -/
def name : ElementType → String
  | .f32 => "float32"
  | .u8 => "uint8"

/-- The kind of a name; blanks around it and the case of its letters do not matter. -/
def parse? (raw : String) : Option ElementType :=
  let word := Text.lowerAscii (Text.trim raw)
  if word = "f32" ∨ word = "float32" ∨ word = "float" then some .f32
  else if word = "u8" ∨ word = "uint8" then some .u8
  else none

/-- The bytes of one element. -/
def itemSize : ElementType → Nat
  | .f32 => 4
  | .u8 => 1

end ElementType

/-- The orders in which the axes of an activation tensor may stand. -/
inductive AxisOrder where
  /-- Channels before the spatial axes. -/
  | nchw
  /-- Channels after the spatial axes. -/
  | nhwc
  deriving DecidableEq, Repr

namespace AxisOrder

/-- The name of an order. -/
def name : AxisOrder → String
  | .nchw => "NCHW"
  | .nhwc => "NHWC"

/-- The permutation that takes a tensor of one order into another. -/
def permutationTo : AxisOrder → AxisOrder → List Nat
  | .nchw, .nhwc => [0, 2, 3, 1]
  | .nhwc, .nchw => [0, 3, 1, 2]
  | .nchw, .nchw => [0, 1, 2, 3]
  | .nhwc, .nhwc => [0, 1, 2, 3]

end AxisOrder

/-- The elements of a tensor. -/
inductive Elements where
  /-- Single-precision words. -/
  | f32 (values : List Single)
  /-- Bytes. -/
  | u8 (values : List UInt8)
  deriving DecidableEq, Repr

namespace Elements

/-- The kind of the elements. -/
def elementType : Elements → ElementType
  | .f32 _ => .f32
  | .u8 _ => .u8

/-- The number of the elements. -/
def length : Elements → Nat
  | .f32 values => values.length
  | .u8 values => values.length

end Elements

/-- A dense tensor in row-major order. -/
structure Tensor where
  /-- The dimensions. -/
  shape : Shape
  /-- The elements. -/
  elements : Elements
  deriving DecidableEq, Repr

namespace Tensor

/-- A tensor of a shape and as many elements as it asks for. -/
def ofElements (shape : Shape) (elements : Elements) : Except ShapeError Tensor := do
  let expected ← shape.elementCount
  if elements.length = expected then return ⟨shape, elements⟩
  else .error (.elementCount expected elements.length)

/-- The words `start`, `start + 1`, … in row-major order; each is one rounded sum. -/
def arange (shape : Shape) (start : Single) : Except ShapeError Tensor := do
  let count ← shape.elementCount
  ofElements shape (.f32 ((List.range count).map fun i => start + Single.ofNat i))

/-- The kind of the elements. -/
def elementType (t : Tensor) : ElementType := t.elements.elementType

/-- The number of the elements. -/
def length (t : Tensor) : Nat := t.elements.length

/-- The elements as double-precision numbers, which hold either kind exactly. -/
def toDoubles (t : Tensor) : List Double :=
  match t.elements with
  | .f32 values => values.map Double.ofSingle
  | .u8 values => values.map fun b => Double.ofNat b.toNat

/-- The elements as single-precision numbers. -/
def toSingles (t : Tensor) : List Single :=
  match t.elements with
  | .f32 values => values.map Single.settle
  | .u8 values => values.map fun b => Single.ofNat b.toNat

/-- The same elements under another shape that asks for as many. -/
def reshaped (t : Tensor) (shape : Shape) : Except ShapeError Tensor := ofElements shape t.elements

/-- The tensor with its axes rearranged. -/
def permuteAxes (t : Tensor) (perm : List Nat) : Except ShapeError Tensor :=
  match t.elements with
  | .f32 values => do
    let (shape, moved) ← Shape.permuteValues values t.shape perm
    return ⟨shape, .f32 moved⟩
  | .u8 values => do
    let (shape, moved) ← Shape.permuteValues values t.shape perm
    return ⟨shape, .u8 moved⟩

/-- The tensor taken from one axis order into another. -/
def convert (t : Tensor) (source target : AxisOrder) : Except ShapeError Tensor :=
  t.permuteAxes (source.permutationTo target)

end Tensor

end NetTrial
