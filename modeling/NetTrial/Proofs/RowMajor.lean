import Mathlib.Data.List.Forall2
import NetTrial.Shape.Basic
/-!
# Places in row-major order

A multi-index below a shape has one coordinate on each axis, each below its dimension. Its place
in row-major order is below the product of the dimensions, and successive division gives the
multi-index back. So an element of a list as long as the shape asks for is named by its
multi-index, and the name of no element leads beyond the list.
-/

namespace NetTrial.Shape

variable {α : Type} {shape : Shape} {index : List Nat}

/-- A multi-index below a shape. -/
def Indexes (index : List Nat) (shape : Shape) : Prop := List.Forall₂ (· < ·) index shape

instance : Decidable (Indexes index shape) :=
  inferInstanceAs (Decidable (List.Forall₂ (· < ·) index shape))

/-- The place of a multi-index in row-major order. -/
def place : (index : List Nat) → Shape → Nat
  | i :: is, _ :: ds => i * size ds + place is ds
  | _, _ => 0

/-- The element at a multi-index, if the multi-index lies below the shape and its place in the
list. -/
def element? (values : List α) (shape : Shape) (index : List Nat) : Option α :=
  if Indexes index shape then values[place index shape]? else none

theorem place_cons (i d : Nat) (is : List Nat) (ds : Shape) :
    place (i :: is) (d :: ds) = i * size ds + place is ds := rfl

theorem place_lt (h : Indexes index shape) : place index shape < size shape := by
  induction h with
  | nil => exact Nat.one_pos
  | @cons i d is ds hi _ ih =>
    rw [place_cons, size]
    calc i * size ds + place is ds < i * size ds + size ds := Nat.add_lt_add_left ih _
      _ = (i + 1) * size ds := (Nat.succ_mul i _).symm
      _ ≤ d * size ds := Nat.mul_le_mul_right _ hi

/-- The coordinates of a position that is split at the outermost axis. -/
theorem coordinates_cons {outer inner d : Nat} {ds : Shape} (h : inner < size ds) :
    coordinates (outer * size ds + inner) (d :: ds) = outer :: coordinates inner ds := by
  have hdiv : (outer * size ds + inner) / size ds = outer := by
    rw [Nat.mul_comm, Nat.mul_add_div (Nat.zero_lt_of_lt h), Nat.div_eq_of_lt h, Nat.add_zero]
  have hmod : (outer * size ds + inner) % size ds = inner := by
    rw [Nat.mul_comm, Nat.mul_add_mod, Nat.mod_eq_of_lt h]
  rw [coordinates, hdiv, hmod]

/-- Division by the sizes of the inner shapes gives a multi-index back. -/
theorem coordinates_place (h : Indexes index shape) :
    coordinates (place index shape) shape = index := by
  induction h with
  | nil => rfl
  | cons _ his ih => rw [place_cons, coordinates_cons (place_lt his), ih]

/-- Every position is the place of its coordinates, which lie below the shape. -/
theorem indexes_coordinates {position : Nat} (h : position < size shape) :
    Indexes (coordinates position shape) shape ∧
      place (coordinates position shape) shape = position := by
  induction shape generalizing position with
  | nil =>
    have hzero : position = 0 := Nat.lt_one_iff.mp h
    exact ⟨.nil, hzero.symm⟩
  | cons d ds ih =>
    rw [size] at h
    have hpos : 0 < size ds := Nat.pos_of_mul_pos_left (Nat.zero_lt_of_lt h)
    have houter : position / size ds < d := (Nat.div_lt_iff_lt_mul hpos).mpr h
    obtain ⟨hinner, hplace⟩ := ih (Nat.mod_lt position hpos)
    refine ⟨.cons houter hinner, ?_⟩
    rw [coordinates, place_cons, hplace]
    exact Nat.div_add_mod' position (size ds)

/-- How far neighbours along each axis lie apart: the sizes of the shapes behind the axes. -/
def innerSizes : Shape → List Nat
  | [] => []
  | _ :: ds => size ds :: innerSizes ds

theorem length_innerSizes (shape : Shape) : (innerSizes shape).length = shape.length := by
  induction shape with
  | nil => rfl
  | cons d ds ih => rw [innerSizes, List.length_cons, List.length_cons, ih]

/-- Coordinate times stride, summed up, is the place. -/
theorem ravel_innerSizes (index : List Nat) (shape : Shape) :
    ravel index (innerSizes shape) = place index shape := by
  induction shape generalizing index with
  | nil => cases index <;> rfl
  | cons d ds ih =>
    cases index with
    | nil => rfl
    | cons i is => rw [innerSizes, ravel, place_cons, ih]

/-- A list as long as its shape asks for has an element at each multi-index, and reading it at
its place needs no default. -/
theorem element?_of_indexes {values : List α} (hlength : values.length = size shape)
    (h : Indexes index shape) (default : α) :
    element? values shape index = some (values.toArray.getD (place index shape) default) := by
  have hlt : place index shape < values.length := hlength ▸ place_lt h
  have hsize : place index shape < values.toArray.size := hlt
  rw [element?, if_pos h, List.getElem?_eq_getElem hlt, Array.getD, dif_pos hsize]
  rfl

/-- On four axes the place is computed from the outermost coordinate inwards. -/
theorem place_four (n y x channel batch height width channels : Nat) :
    place [n, y, x, channel] [batch, height, width, channels] =
      ((n * height + y) * width + x) * channels + channel := by
  simp only [place, size, Nat.mul_one, Nat.add_zero, Nat.add_mul, Nat.mul_assoc, Nat.add_assoc]

theorem indexes_four {n y x channel batch height width channels : Nat} :
    Indexes [n, y, x, channel] [batch, height, width, channels] ↔
      n < batch ∧ y < height ∧ x < width ∧ channel < channels := by
  simp [Indexes]

end NetTrial.Shape
