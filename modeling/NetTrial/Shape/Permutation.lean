import NetTrial.Shape.Basic
/-!
# Rearranging axes

A permutation lists, for each axis of the result, the axis of the source it is taken from.
Values are moved by reading, for every position of the result in row-major order, the
source position that the rearranged strides give.
-/

namespace NetTrial.Shape

/-- Whether a list is a rearrangement of the axes below a rank. -/
def isPermutation (rank : Nat) (perm : List Nat) : Bool :=
  perm.length == rank && perm.all (· < rank) && decide perm.Nodup

/-- Refuses a list that is not a rearrangement of the axes below a rank. -/
def validatePermutation (rank : Nat) (perm : List Nat) : Except ShapeError Unit :=
  if isPermutation rank perm then .ok () else .error (.invalidPermutation rank perm)

/-- The permutation that undoes another: for each axis, where it stands in the list. -/
def inversePermutation (perm : List Nat) : Except ShapeError (List Nat) := do
  validatePermutation perm.length perm
  return (List.range perm.length).map fun axis => perm.idxOf axis

/-- The entries of a list in the order of a permutation. -/
def rearrange (perm entries : List Nat) : List Nat := perm.map fun axis => entries.getD axis 0

/-- The shape after rearranging the axes. -/
def permuted (shape : Shape) (perm : List Nat) : Except ShapeError Shape := do
  validatePermutation shape.length perm
  return rearrange perm shape

/-- The values in row-major order of the rearranged shape. -/
def permuteValues {α : Type} [Inhabited α] (values : List α) (shape : Shape) (perm : List Nat) :
    Except ShapeError (Shape × List α) := do
  let target ← shape.permuted perm
  let count ← shape.elementCount
  if values.length = count then
    let sourceStrides := rearrange perm (← shape.strides)
    let source := values.toArray
    return (target, (List.range count).map fun position =>
      source.getD (ravel (coordinates position target) sourceStrides) default)
  else .error (.elementCount count values.length)

end NetTrial.Shape
