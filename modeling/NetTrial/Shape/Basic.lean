import NetTrial.Number.Layout
/-!
# Shapes and row-major order

A shape is the list of a tensor's dimensions. Dimensions and sizes are naturals; every
product that a size is computed from is tested against the word limit in a fixed order,
from the first dimension on for element counts and from the last one on for strides. The
two orders differ only for shapes with a zero among large dimensions.
-/

namespace NetTrial

open Number

/-- The dimensions of a tensor, outermost first. -/
abbrev Shape := List Nat

/-- Sizes and indices are below this limit, the number of words of 64 bits. -/
def wordLimit : Nat := 0x10000000000000000

/-- A list of naturals as messages show it. -/
def listText (ns : List Nat) : String :=
  "[" ++ String.intercalate ", " (ns.map natText) ++ "]"

/-- Why a shape operation is refused. -/
inductive ShapeError where
  /-- A size does not fit a word. -/
  | overflow
  /-- A list is not a rearrangement of the axes. -/
  | invalidPermutation (rank : Nat) (perm : List Nat)
  /-- The number of elements is not the one that the shape asks for. -/
  | elementCount (expected actual : Nat)
  /-- A flat index lies beyond the last element. -/
  | outOfBounds (index length : Nat)
  deriving DecidableEq, Repr

namespace ShapeError

/-- The stable code of a cause. -/
def reasonCode : ShapeError → String
  | .overflow => "shape_size_overflow"
  | .invalidPermutation .. => "shape_permutation_invalid"
  | .elementCount .. => "shape_element_count_mismatch"
  | .outOfBounds .. => "shape_index_out_of_bounds"

/-- The text of a cause. -/
def message : ShapeError → String
  | .overflow => "size arithmetic overflow"
  | .invalidPermutation rank perm =>
    "permutation " ++ listText perm ++ " is not valid for rank " ++ natText rank
  | .elementCount expected actual =>
    "element count mismatch expected=" ++ natText expected ++ " actual=" ++ natText actual
  | .outOfBounds index length =>
    "flat index " ++ natText index ++ " out of bounds for " ++ natText length ++ " elements"

end ShapeError

/-- A product that fits a word. -/
def checkedMul (a b : Nat) : Option Nat := if a * b < wordLimit then some (a * b) else none

/-- A sum that fits a word. -/
def checkedAdd (a b : Nat) : Option Nat := if a + b < wordLimit then some (a + b) else none

/-- A checked product is the product. -/
theorem checkedMul_eq_some_iff {a b n : Nat} :
    checkedMul a b = some n ↔ n = a * b ∧ a * b < wordLimit := by
  unfold checkedMul
  split <;> simp_all [eq_comm]

/-- A checked sum is the sum. -/
theorem checkedAdd_eq_some_iff {a b n : Nat} :
    checkedAdd a b = some n ↔ n = a + b ∧ a + b < wordLimit := by
  unfold checkedAdd
  split <;> simp_all [eq_comm]

/-- A product that fits a word, or the overflow cause. -/
def shapeProduct (a b : Nat) : Except ShapeError Nat :=
  match checkedMul a b with
  | some n => .ok n
  | none => .error .overflow

namespace Shape

/-- The dimensions multiplied onto a product, each partial product tested. -/
def countFrom (acc : Nat) : Shape → Except ShapeError Nat
  | [] => .ok acc
  | d :: ds => do countFrom (← shapeProduct acc d) ds

/-- The number of elements of a shape. -/
def elementCount (shape : Shape) : Except ShapeError Nat := countFrom 1 shape

/-- The strides of a shape and the product of its dimensions, multiplied from the last
dimension on. -/
def stridesAndSize : Shape → Except ShapeError (List Nat × Nat)
  | [] => .ok ([], 1)
  | d :: ds => do
    let (strides, size) ← stridesAndSize ds
    return (size :: strides, ← shapeProduct size d)

/-- How far apart, in elements, neighbours along each axis lie in row-major order. -/
def strides (shape : Shape) : Except ShapeError (List Nat) := Prod.fst <$> stridesAndSize shape

/-- The coordinates of a flat index by successive division by the strides. -/
def divideOut (flat : Nat) : (strides : List Nat) → List Nat
  | [] => []
  | s :: ss => flat / s :: divideOut (flat % s) ss

/-- The coordinates of a flat index in row-major order. -/
def unravel (flat : Nat) (shape : Shape) : Except ShapeError (List Nat) := do
  let count ← shape.elementCount
  if count ≤ flat then .error (.outOfBounds flat count)
  else return divideOut flat (← shape.strides)

/-- The sum of coordinate times stride. -/
def ravel : (coordinates strides : List Nat) → Nat
  | c :: cs, s :: ss => c * s + ravel cs ss
  | _, _ => 0

/-- The product of the dimensions, without a limit. -/
def size : Shape → Nat
  | [] => 1
  | d :: ds => d * size ds

/-- The coordinates of a flat index in row-major order, without a limit. -/
def coordinates (flat : Nat) : Shape → List Nat
  | [] => []
  | _ :: ds => flat / size ds :: coordinates (flat % size ds) ds

end Shape

end NetTrial
