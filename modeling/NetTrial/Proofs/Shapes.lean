import Mathlib.Data.List.Perm.Subperm
import NetTrial.Proofs.TensorFiles
/-!
# Counting and rearranging shapes

The dimensions of a shape are multiplied from the first one on, and after a zero nothing is left
to overflow. So a shape is counted exactly when the dimensions in front of its first zero multiply
to a word. Rearranging the axes keeps the product of the dimensions, but it can bring a zero
behind dimensions that are too large together.
-/

namespace NetTrial

open Number

namespace Shape

variable {acc n : Nat} {shape : Shape}

theorem shapeProduct_eq_ok {a b n : Nat} :
    shapeProduct a b = .ok n ↔ n = a * b ∧ a * b < wordLimit := by
  rw [← checkedMul_eq_some_iff, shapeProduct]
  cases checkedMul a b <;> simp

theorem shapeProduct_of_le {a b : Nat} (h : wordLimit ≤ a * b) :
    shapeProduct a b = .error .overflow := by
  rw [shapeProduct, checkedMul, if_neg (Nat.not_lt.mpr h)]

/-- The dimensions in front of the first zero. -/
def lead (shape : Shape) : Shape := shape.takeWhile (· ≠ 0)

theorem lead_zero_cons (ds : Shape) : lead (0 :: ds) = [] := rfl

theorem lead_cons {d : Nat} (h : d ≠ 0) (ds : Shape) : lead (d :: ds) = d :: lead ds := by
  simp [lead, h]

theorem size_lead_pos (shape : Shape) : 0 < size (lead shape) := by
  induction shape with
  | nil => exact Nat.one_pos
  | cons d ds ih =>
    by_cases hd : d = 0
    · rw [hd, lead_zero_cons]
      exact Nat.one_pos
    · rw [lead_cons hd, size]
      exact Nat.mul_pos (Nat.pos_of_ne_zero hd) ih

theorem countFrom_zero (shape : Shape) : countFrom 0 shape = .ok 0 := by
  induction shape with
  | nil => rfl
  | cons d ds ih =>
    rw [countFrom, (shapeProduct_eq_ok).mpr ⟨(Nat.zero_mul d).symm, by rw [Nat.zero_mul]; decide⟩]
    exact ih

/-- A count is the product of the dimensions, and there is one when those in front of the first
zero multiply to a word. -/
theorem countFrom_eq_ok_iff (hacc : acc < wordLimit) :
    countFrom acc shape = .ok n ↔ n = acc * size shape ∧ acc * size (lead shape) < wordLimit := by
  induction shape generalizing acc with
  | nil =>
    simp only [countFrom, size, lead, List.takeWhile_nil, Nat.mul_one, Except.ok.injEq]
    exact ⟨fun h => ⟨h.symm, hacc⟩, fun h => h.1.symm⟩
  | cons d ds ih =>
    by_cases hd : d = 0
    · subst hd
      have hzero : shapeProduct acc 0 = .ok 0 := (shapeProduct_eq_ok).mpr ⟨rfl, Nat.two_pow_pos 64⟩
      have hcount : countFrom acc (0 :: ds) = .ok 0 := by
        rw [countFrom, hzero]
        exact countFrom_zero ds
      rw [hcount, lead_zero_cons, size, size, Nat.zero_mul, Nat.mul_zero, Nat.mul_one,
        Except.ok.injEq]
      exact ⟨fun h => ⟨h.symm, hacc⟩, fun h => h.1.symm⟩
    · rw [countFrom, lead_cons hd, size, size, ← Nat.mul_assoc, ← Nat.mul_assoc]
      by_cases hlt : acc * d < wordLimit
      · rw [(shapeProduct_eq_ok).mpr ⟨rfl, hlt⟩]
        exact ih hlt
      · rw [shapeProduct_of_le (Nat.not_lt.mp hlt)]
        have hlarge : wordLimit ≤ acc * d * size (lead ds) :=
          Nat.le_trans (Nat.not_lt.mp hlt) (Nat.le_mul_of_pos_right _ (size_lead_pos ds))
        constructor
        · intro h
          cases h
        · rintro ⟨-, h⟩
          exact absurd h (Nat.not_lt.mpr hlarge)

theorem elementCount_eq_ok_iff :
    elementCount shape = .ok n ↔ n = size shape ∧ size (lead shape) < wordLimit := by
  rw [elementCount, countFrom_eq_ok_iff (by decide), Nat.one_mul, Nat.one_mul]

/-- Without a zero all dimensions are in front of it. -/
theorem lead_of_size_ne_zero (h : size shape ≠ 0) : lead shape = shape := by
  induction shape with
  | nil => rfl
  | cons d ds ih =>
    rw [size] at h
    obtain ⟨hd, hds⟩ := Nat.mul_ne_zero_iff.mp h
    rw [lead_cons hd, ih hds]

theorem elementCount_eq_ok (h : elementCount shape = .ok n) : n = size shape ∧ n < wordLimit := by
  obtain ⟨rfl, hlt⟩ := (elementCount_eq_ok_iff).mp h
  refine ⟨rfl, ?_⟩
  by_cases hz : size shape = 0
  · rw [hz]
    decide
  · rwa [lead_of_size_ne_zero hz] at hlt

/-- A shape that is not counted is too large. -/
theorem elementCount_eq_error {cause : ShapeError} (h : elementCount shape = .error cause) :
    cause = .overflow := by
  have hcount : ∀ acc, countFrom acc shape = .error cause → cause = .overflow := by
    clear h
    induction shape with
    | nil => intro acc h; cases h
    | cons d ds ih =>
      intro acc h
      by_cases hlt : acc * d < wordLimit
      · rw [countFrom, (shapeProduct_eq_ok).mpr ⟨rfl, hlt⟩] at h
        exact ih (acc * d) h
      · rw [countFrom, shapeProduct_of_le (Nat.not_lt.mp hlt)] at h
        cases h
        rfl
  exact hcount 1 h

/-- Dimensions without a zero are counted when their product is a word. -/
theorem elementCount_of_lt (hlt : size shape < wordLimit) (hne : size shape ≠ 0) :
    elementCount shape = .ok (size shape) :=
  (elementCount_eq_ok_iff).mpr ⟨rfl, by rwa [lead_of_size_ne_zero hne]⟩

theorem size_of_mem_zero (h : 0 ∈ shape) : size shape = 0 := by
  induction shape with
  | nil => cases h
  | cons d ds ih =>
    rw [size]
    cases h with
    | head => exact Nat.zero_mul _
    | tail _ h => rw [ih h, Nat.mul_zero]

theorem size_ne_zero_of_pos (h : ∀ d ∈ shape, 1 ≤ d) : size shape ≠ 0 := by
  induction shape with
  | nil => exact Nat.one_ne_zero
  | cons d ds ih =>
    have hd : 1 ≤ d := h d List.mem_cons_self
    have hds : size ds ≠ 0 := ih fun e he => h e (List.mem_cons_of_mem d he)
    rw [size]
    exact Nat.mul_ne_zero (by omega) hds

/-- No dimension is larger than a product that is not zero. -/
theorem le_size_of_mem {d : Nat} (hd : d ∈ shape) (hne : size shape ≠ 0) : d ≤ size shape := by
  induction shape with
  | nil => cases hd
  | cons e ds ih =>
    rw [size] at hne ⊢
    obtain ⟨he, hds⟩ := Nat.mul_ne_zero_iff.mp hne
    rcases List.mem_cons.mp hd with rfl | hd
    · exact Nat.le_mul_of_pos_right _ (Nat.pos_of_ne_zero hds)
    · exact Nat.le_trans (ih hd hds) (Nat.le_mul_of_pos_left _ (Nat.pos_of_ne_zero he))

/-! ## Rearranging -/

/-- The order of the dimensions does not matter for their product. -/
theorem size_perm {front back : Shape} (h : front.Perm back) : size front = size back := by
  induction h with
  | nil => rfl
  | cons d _ ih => rw [size, size, ih]
  | swap d e ds =>
    rw [size, size, size, size]
    exact Nat.mul_left_comm e d (size ds)
  | trans _ _ ih₁ ih₂ => exact ih₁.trans ih₂

theorem isPermutation_eq_true_iff {rank : Nat} {perm : List Nat} :
    isPermutation rank perm = true ↔
      perm.length = rank ∧ (∀ axis ∈ perm, axis < rank) ∧ perm.Nodup := by
  simp [isPermutation, and_assoc]

/-- A list that passes as a permutation lists each axis once. -/
theorem perm_range_of_isPermutation {rank : Nat} {perm : List Nat}
    (h : isPermutation rank perm = true) : perm.Perm (List.range rank) := by
  obtain ⟨hlength, hall, hnodup⟩ := (isPermutation_eq_true_iff).mp h
  have hsub : perm ⊆ List.range rank := fun axis haxis => List.mem_range.mpr (hall axis haxis)
  exact (List.subperm_of_subset hnodup hsub).perm_of_length_le (by simp [hlength])

theorem rearrange_range (shape : Shape) : rearrange (List.range shape.length) shape = shape := by
  rw [rearrange]
  refine List.ext_getElem (by simp) fun i hi _ => ?_
  have hlt : i < shape.length := by simpa using hi
  simp [List.getElem?_eq_getElem hlt]

/-- Rearranging the axes keeps the product of the dimensions. -/
theorem size_rearrange {perm : List Nat} (h : isPermutation shape.length perm = true) :
    size (rearrange perm shape) = size shape := by
  have hperm : (rearrange perm shape).Perm (rearrange (List.range shape.length) shape) :=
    (perm_range_of_isPermutation h).map _
  rw [size_perm hperm, rearrange_range]

theorem permuted_gives (shape : Shape) (perm : List Nat) :
    Gives (shape.permuted perm) fun target =>
      isPermutation shape.length perm = true ∧ target = rearrange perm shape := by
  rw [permuted, validatePermutation]
  by_cases h : isPermutation shape.length perm = true
  · rw [if_pos h]
    exact gives_ok ⟨h, rfl⟩
  · rw [if_neg h]
    exact .bind gives_error

/-- Moved values are as many as the shape asked for before. -/
theorem permuteValues_gives {α : Type} [Inhabited α] (values : List α) (shape : Shape)
    (perm : List Nat) : Gives (permuteValues values shape perm) fun moved =>
      isPermutation shape.length perm = true ∧ moved.1 = rearrange perm shape ∧
        shape.elementCount = .ok moved.2.length := by
  rw [permuteValues]
  refine .bind ((permuted_gives shape perm).mono ?_)
  rintro target ⟨hperm, rfl⟩
  refine .bind ⟨fun {count} hcount => ?_⟩
  refine gives_ite (gives_bind fun _ => gives_ok ⟨hperm, rfl, ?_⟩) gives_error
  rw [hcount, List.length_map, List.length_range]

end Shape

/-- A tensor is built of what it is asked to be built of, when the shape asks for as much. -/
theorem Tensor.ofElements_gives (shape : Shape) (elements : Elements) :
    Gives (ofElements shape elements) fun t =>
      t = ⟨shape, elements⟩ ∧ shape.elementCount = .ok elements.length := by
  rw [ofElements]
  refine .bind ⟨fun {count} hcount => ?_⟩
  by_cases hl : elements.length = count
  · rw [if_pos hl]
    exact gives_ok ⟨rfl, by rw [hcount, hl]⟩
  · rw [if_neg hl]
    exact gives_error

end NetTrial
