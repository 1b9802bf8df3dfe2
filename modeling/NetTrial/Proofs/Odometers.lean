import NetTrial.Proofs.Shapes
import NetTrial.Proofs.RowMajor
import NetTrial.Shape.Permutation
/-!
# Moving values with an odometer

The values of a rearranged shape can be read one after the other: an index runs through the
rearranged shape like an odometer, and a sum of coordinate times stride says where to read. The
copy of the rearrangement that works so tests every product, every sum and every read. It agrees
with the rearrangement that reads by coordinates, so none of these tests ever fails.
-/

namespace NetTrial.Shape

variable {α : Type} {shape target : Shape} {index strides : List Nat} {steps position : Nat}

/-! ## One step -/

/-- The index one step on, and whether its outermost coordinate has run out. The innermost
coordinate is counted up first; one that runs out starts again and carries to the axis in front
of it. -/
def advance? : (index : List Nat) → Shape → Option (List Nat × Bool)
  | i :: is, d :: ds => do
    let (is, carry) ← advance? is ds
    if carry then
      let next ← checkedAdd i 1
      if next < d then some (next :: is, false) else some (0 :: is, true)
    else some (i :: is, false)
  | _, _ => some ([], true)

/-- The sum of coordinate times stride onto what was summed so far. -/
def offsetFrom? (sum : Nat) : (index strides : List Nat) → Option Nat
  | i :: is, s :: ss => do
    let step ← checkedMul i s
    offsetFrom? (← checkedAdd sum step) is ss
  | _, _ => some sum

/-- The coordinates of a position are advanced to those of the next one, and those of the last
position to those of the first. -/
theorem advance?_coordinates (hbound : size shape < wordLimit) (h : position < size shape) :
    advance? (coordinates position shape) shape =
      some (coordinates ((position + 1) % size shape) shape,
        decide (position + 1 = size shape)) := by
  induction shape generalizing position with
  | nil =>
    have hzero : position = 0 := Nat.lt_one_iff.mp h
    subst hzero
    rfl
  | cons d ds ih =>
    rw [size] at hbound h
    have hpos : 0 < size ds := Nat.pos_of_mul_pos_left (Nat.zero_lt_of_lt h)
    obtain ⟨outer, inner, hinner, hposition⟩ :
        ∃ outer inner, inner < size ds ∧ position = outer * size ds + inner :=
      ⟨position / size ds, position % size ds, Nat.mod_lt position hpos,
        (Nat.div_add_mod' position (size ds)).symm⟩
    have houter : outer < d := by
      refine Nat.lt_of_mul_lt_mul_right (a := size ds) ?_
      omega
    have hd : d ≤ d * size ds := Nat.le_mul_of_pos_right d hpos
    have hds : size ds ≤ d * size ds := Nat.le_mul_of_pos_left _ (Nat.zero_lt_of_lt houter)
    have hstep := ih (by omega) hinner
    have hrows : (outer + 1) * size ds ≤ d * size ds := Nat.mul_le_mul_right _ houter
    rw [Nat.add_mul, Nat.one_mul] at hrows
    rw [hposition, coordinates_cons hinner, size]
    simp only [advance?, hstep, bind, Option.bind]
    by_cases hlast : inner + 1 = size ds
    · -- The inner axes have run out, so the outer coordinate is counted up.
      have hword : checkedAdd outer 1 = some (outer + 1) :=
        checkedAdd_eq_some_iff.mpr ⟨rfl, by omega⟩
      have hnext : outer * size ds + inner + 1 = (outer + 1) * size ds + 0 := by
        rw [Nat.add_mul, Nat.one_mul]
        omega
      simp only [hlast, decide_true, if_true, Nat.mod_self, hword]
      by_cases hmore : outer + 1 < d
      · have hlt : (outer + 1) * size ds + 0 < d * size ds :=
          Nat.mul_lt_mul_of_pos_right hmore hpos
        rw [if_pos hmore, hnext, Nat.mod_eq_of_lt hlt, coordinates_cons hpos,
          decide_eq_false (Nat.ne_of_lt hlt)]
      · have hall : outer * size ds + inner + 1 = d * size ds := by
          have hend : outer + 1 = d := by omega
          rw [hnext, hend, Nat.add_zero]
        have hfirst : coordinates 0 (d :: ds) = 0 :: coordinates 0 ds := by
          rw [← coordinates_cons hpos, Nat.zero_mul]
        rw [if_neg hmore, hall, Nat.mod_self, decide_eq_true rfl, hfirst]
    · have hlt : outer * size ds + (inner + 1) < d * size ds := by omega
      have hlow : inner + 1 < size ds := by omega
      rw [decide_eq_false hlast, Nat.add_assoc, decide_eq_false (Nat.ne_of_lt hlt),
        Nat.mod_eq_of_lt hlt, Nat.mod_eq_of_lt hlow, coordinates_cons hlow]
      rfl

/-- A sum that is a word is reached without an overflow on the way. -/
theorem offsetFrom?_eq {sum : Nat} (h : sum + ravel index strides < wordLimit) :
    offsetFrom? sum index strides = some (sum + ravel index strides) := by
  induction index generalizing sum strides with
  | nil => rfl
  | cons i is ih =>
    cases strides with
    | nil => rfl
    | cons s ss =>
      rw [ravel, ← Nat.add_assoc] at h
      have hstep : checkedMul i s = some (i * s) := checkedMul_eq_some_iff.mpr ⟨rfl, by omega⟩
      have hsum : checkedAdd sum (i * s) = some (sum + i * s) :=
        checkedAdd_eq_some_iff.mpr ⟨rfl, by omega⟩
      simp only [offsetFrom?, hstep, hsum, bind, Option.bind]
      rw [ih h, ravel, Nat.add_assoc]

/-! ## The walk -/

/-- Reads as many values as there are steps, from an index on. -/
def walk? (source : Array α) (strides : List Nat) (target : Shape) :
    (steps : Nat) → (index : List Nat) → Option (List α)
  | 0, _ => some []
  | steps + 1, index => do
    let offset ← offsetFrom? 0 index strides
    let value ← source[offset]?
    let (next, _) ← advance? index target
    return value :: (← walk? source strides target steps next)

/-- From the coordinates of a position on, the walk reads what stands at the coordinates of this
position and of those after it. -/
theorem walk?_coordinates [Inhabited α] {source : Array α} (hbound : size target < wordLimit)
    (hsize : source.size < wordLimit)
    (hreads : ∀ n < size target, ravel (coordinates n target) strides < source.size)
    (hsteps : position + steps = size target) :
    walk? source strides target steps (coordinates (position % size target) target) =
      some ((List.range' position steps).map fun n =>
        source.getD (ravel (coordinates n target) strides) default) := by
  induction steps generalizing position with
  | zero => rfl
  | succ steps ih =>
    have hlt : position < size target := by omega
    have hread := hreads position hlt
    have hoffset : offsetFrom? 0 (coordinates position target) strides =
        some (ravel (coordinates position target) strides) := by
      rw [offsetFrom?_eq (by omega), Nat.zero_add]
    have hvalue : source[ravel (coordinates position target) strides]? =
        some (source.getD (ravel (coordinates position target) strides) default) := by
      rw [Array.getElem?_eq_getElem hread, Array.getD, dif_pos hread]
      rfl
    have hnext : position + 1 + steps = size target := by omega
    have hrest := ih hnext
    rw [Nat.mod_eq_of_lt hlt, walk?, hoffset]
    simp only [bind, Option.bind, hvalue, advance?_coordinates hbound hlt, hrest]
    rfl

/-- Moves the values with an odometer that starts at the first index of the rearranged shape. -/
def walkValues? (values : List α) (shape : Shape) (perm : List Nat) :
    Except ShapeError (Option (Shape × List α)) := do
  let target ← shape.permuted perm
  let count ← shape.elementCount
  if values.length = count then
    let sourceStrides := rearrange perm (← shape.strides)
    return (walk? values.toArray sourceStrides target count (target.map fun _ => 0)).map
      fun moved => (target, moved)
  else .error (.elementCount count values.length)

end NetTrial.Shape
