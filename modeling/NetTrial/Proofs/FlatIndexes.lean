import NetTrial.Proofs.Rearrangements
/-!
# Coordinates of a flat index

A flat index below the number of elements is divided by the strides, one after the other. A shape
that has a flat index has no dimension of zero, so no stride is zero, and the strides fit a word
where the count does. The coordinates lie below the dimensions and lead back to the flat index; a
larger flat index has coordinates that come later in lexicographic order. So the flat indices of a
shape go through all multi-indices below it, each once and in this order.
-/

namespace NetTrial.Shape

variable {shape : Shape} {flat later count : Nat} {index : List Nat}

/-! ## One flat index -/

/-- Division by the strides gives the coordinates. -/
theorem divideOut_innerSizes (flat : Nat) (shape : Shape) :
    divideOut flat (innerSizes shape) = coordinates flat shape := by
  induction shape generalizing flat with
  | nil => rfl
  | cons d ds ih => rw [innerSizes, divideOut, coordinates, ih]

theorem size_ne_zero_of_count (hcount : elementCount shape = .ok count) (hflat : flat < count) :
    size shape ≠ 0 := by
  have hsize := (elementCount_eq_ok hcount).1
  omega

/-- No dimension of a shape with elements is zero, so the strides do not overflow where the count
does not. -/
theorem strides_eq (hcount : elementCount shape = .ok count) (hflat : flat < count) :
    strides shape = .ok (innerSizes shape) := by
  obtain ⟨hsize, hlt⟩ := elementCount_eq_ok hcount
  exact strides_of_lt (hsize ▸ hlt) (size_ne_zero_of_count hcount hflat)

/-- The coordinates of an element are found. -/
theorem unravel_eq (hcount : elementCount shape = .ok count) (hflat : flat < count) :
    unravel flat shape = .ok (coordinates flat shape) := by
  rw [unravel, hcount]
  simp only [bind, Except.bind, if_neg (Nat.not_le_of_lt hflat), strides_eq hcount hflat, pure,
    Except.pure, divideOut_innerSizes]

/-- Coordinates are found for the flat indices below a count, and for no others. -/
theorem unravel_eq_ok_iff : unravel flat shape = .ok index ↔
    (∃ count, elementCount shape = .ok count ∧ flat < count) ∧ index = coordinates flat shape := by
  constructor
  · intro h
    cases hcount : elementCount shape with
    | error cause =>
      rw [unravel, hcount] at h
      cases h
    | ok count =>
      by_cases hflat : flat < count
      · rw [unravel_eq hcount hflat] at h
        exact ⟨⟨count, rfl, hflat⟩, (Except.ok.inj h).symm⟩
      · rw [unravel, hcount] at h
        simp only [bind, Except.bind, if_pos (Nat.le_of_not_lt hflat), reduceCtorEq] at h
  · rintro ⟨⟨count, hcount, hflat⟩, rfl⟩
    exact unravel_eq hcount hflat

/-- Behind an axis of a shape with elements there is at least one element. -/
theorem ne_zero_of_mem_innerSizes (hne : size shape ≠ 0) : ∀ s ∈ innerSizes shape, s ≠ 0 := by
  induction shape with
  | nil =>
    intro s hs
    cases hs
  | cons d ds ih =>
    have hds : size ds ≠ 0 := (Nat.mul_ne_zero_iff.mp hne).2
    intro s hs
    rcases List.mem_cons.mp hs with rfl | hs
    · exact hds
    · exact ih hds s hs

/-- Division by the strides one after the other, unless one of them is zero. -/
def divideOut? (flat : Nat) : (strides : List Nat) → Option (List Nat)
  | [] => some []
  | s :: ss => if s = 0 then none else (divideOut? (flat % s) ss).map (flat / s :: ·)

theorem divideOut?_eq {strides : List Nat} (h : ∀ s ∈ strides, s ≠ 0) (flat : Nat) :
    divideOut? flat strides = some (divideOut flat strides) := by
  induction strides generalizing flat with
  | nil => rfl
  | cons s ss ih =>
    have hs : s ≠ 0 := h s List.mem_cons_self
    have hss : ∀ s ∈ ss, s ≠ 0 := fun s hs => h s (List.mem_cons_of_mem _ hs)
    rw [divideOut?, if_neg hs, ih hss, Option.map_some, divideOut]

/-- The coordinates of a flat index, by divisions that are tested. -/
def unravel? (flat : Nat) (shape : Shape) : Except ShapeError (Option (List Nat)) := do
  let count ← shape.elementCount
  if count ≤ flat then .error (.outOfBounds flat count)
  else return divideOut? flat (← shape.strides)

/-- No flat index of any shape is divided by zero. -/
theorem unravel?_eq (flat : Nat) (shape : Shape) :
    unravel? flat shape = some <$> unravel flat shape := by
  rw [unravel?, unravel]
  cases hcount : shape.elementCount with
  | error cause => rfl
  | ok count =>
    simp only [bind, Except.bind]
    by_cases hflat : flat < count
    · have hnonzero := ne_zero_of_mem_innerSizes (size_ne_zero_of_count hcount hflat)
      rw [if_neg (Nat.not_le_of_lt hflat), if_neg (Nat.not_le_of_lt hflat),
        strides_eq hcount hflat]
      simp only [divideOut?_eq hnonzero]
      rfl
    · rw [if_pos (Nat.le_of_not_lt hflat), if_pos (Nat.le_of_not_lt hflat)]
      rfl

/-- Coordinates that lead back to a flat index by the strides of a shape. -/
structure LeadsBack (shape : Shape) (flat : Nat) (index steps : List Nat) : Prop where
  /-- The shape has these strides. -/
  strides : shape.strides = .ok steps
  /-- None of them is zero. -/
  nonzero : ∀ s ∈ steps, s ≠ 0
  /-- There is one coordinate for each axis. -/
  rank : index.length = shape.length
  /-- Each coordinate lies below its dimension. -/
  indexes : Indexes index shape
  /-- Coordinate times stride, summed up, is the flat index. -/
  ravels : ravel index steps = flat

theorem leadsBack_coordinates (hcount : elementCount shape = .ok count) (hflat : flat < count) :
    LeadsBack shape flat (coordinates flat shape) (innerSizes shape) := by
  have hsize := (elementCount_eq_ok hcount).1
  obtain ⟨hindexes, hplace⟩ := indexes_coordinates (hsize ▸ hflat)
  exact
    { strides := strides_eq hcount hflat
      nonzero := ne_zero_of_mem_innerSizes (size_ne_zero_of_count hcount hflat)
      rank := hindexes.length_eq
      indexes := hindexes
      ravels := by rw [ravel_innerSizes, hplace] }

/-! ## All flat indices -/

/-- The coordinates of a later position come later in lexicographic order. -/
theorem lex_coordinates (h : flat < later) (hlater : later < size shape) :
    List.Lex (· < ·) (coordinates flat shape) (coordinates later shape) := by
  induction shape generalizing flat later with
  | nil =>
    rw [size] at hlater
    omega
  | cons d ds ih =>
    rw [size] at hlater
    have hpos : 0 < size ds := Nat.pos_of_mul_pos_left (Nat.zero_lt_of_lt hlater)
    rw [coordinates, coordinates]
    have hle : flat / size ds ≤ later / size ds := Nat.div_le_div_right (Nat.le_of_lt h)
    rcases Nat.lt_or_eq_of_le hle with houter | houter
    · exact .rel houter
    · -- In the same row the inner positions decide.
      have hflat := Nat.div_add_mod flat (size ds)
      have hrow := Nat.div_add_mod later (size ds)
      rw [houter] at hflat ⊢
      exact .cons (ih (by omega) (Nat.mod_lt later hpos))

/-- A list of the multi-indices below a shape, each once, in lexicographic order. -/
structure Enumerates (indices : List (List Nat)) (shape : Shape) : Prop where
  /-- The multi-indices below the shape are listed, and nothing else. -/
  mem_iff : ∀ index, index ∈ indices ↔ Indexes index shape
  /-- Each is listed once. -/
  nodup : indices.Nodup
  /-- Each comes before those that are larger in lexicographic order. -/
  sorted : indices.Pairwise (List.Lex (· < ·))

/-- The multi-indices below a shape in the order of their places. -/
def multiIndices (shape : Shape) : List (List Nat) :=
  (List.range (size shape)).map fun position => coordinates position shape

theorem getElem?_multiIndices : (multiIndices shape)[flat]? = some index ↔
    flat < size shape ∧ index = coordinates flat shape := by
  rw [multiIndices, List.getElem?_map]
  by_cases hflat : flat < size shape
  · rw [List.getElem?_range hflat, Option.map_some, Option.some.injEq]
    exact ⟨fun h => ⟨hflat, h.symm⟩, fun h => h.2.symm⟩
  · rw [List.getElem?_eq_none (by simpa using hflat)]
    simp [hflat]

theorem enumerates_multiIndices (shape : Shape) : Enumerates (multiIndices shape) shape := by
  have hsorted : (multiIndices shape).Pairwise (List.Lex (· < ·)) := by
    rw [multiIndices, List.pairwise_map]
    refine List.pairwise_lt_range.imp_of_mem fun _ hlater hlt => ?_
    exact lex_coordinates hlt (List.mem_range.mp hlater)
  refine { mem_iff := fun index => ?_, nodup := ?_, sorted := hsorted }
  · rw [multiIndices, List.mem_map]
    constructor
    · rintro ⟨position, hposition, rfl⟩
      exact (indexes_coordinates (List.mem_range.mp hposition)).1
    · intro h
      exact ⟨place index shape, List.mem_range.mpr (place_lt h), coordinates_place h⟩
  · refine hsorted.imp fun hlex heq => ?_
    subst heq
    exact List.lex_irrefl Nat.lt_irrefl _ hlex

/-- The coordinates of a flat index are found exactly when the elements of the shape are counted
and the flat index is below their number; no division is by zero. There is one coordinate for each
axis, each below its dimension, and coordinate times stride adds up to the flat index. The flat
indices of a shape go through all multi-indices below it, each once, in lexicographic order. -/
theorem unravel_inverts (shape : Shape) :
    (∀ flat, (∃ index, unravel flat shape = .ok index) ↔
      ∃ count, shape.elementCount = .ok count ∧ flat < count) ∧
    (∀ flat, unravel? flat shape = some <$> unravel flat shape) ∧
    (∀ flat index, unravel flat shape = .ok index →
      ∃ strides, LeadsBack shape flat index strides) ∧
    (∀ count, shape.elementCount = .ok count →
      ∃ indices, Enumerates indices shape ∧ indices.length = count ∧
        ∀ flat index, unravel flat shape = .ok index ↔ indices[flat]? = some index) := by
  refine ⟨fun flat => ?_, fun flat => unravel?_eq flat shape, fun flat index h => ?_,
    fun count hcount => ?_⟩
  · constructor
    · rintro ⟨index, h⟩
      exact ((unravel_eq_ok_iff).mp h).1
    · intro h
      exact ⟨coordinates flat shape, (unravel_eq_ok_iff).mpr ⟨h, rfl⟩⟩
  · obtain ⟨⟨count, hcount, hflat⟩, rfl⟩ := (unravel_eq_ok_iff).mp h
    exact ⟨innerSizes shape, leadsBack_coordinates hcount hflat⟩
  · have hsize := (elementCount_eq_ok hcount).1
    refine ⟨multiIndices shape, enumerates_multiIndices shape, ?_, fun flat index => ?_⟩
    · rw [multiIndices, List.length_map, List.length_range, hsize]
    · rw [unravel_eq_ok_iff, getElem?_multiIndices]
      simp [hcount, hsize]

/-- Two matrices of three rows and four columns have twenty-four flat indices. The one at seventeen
is the second column of the second row of the second matrix. -/
theorem unravel_inverts_matrices :
    elementCount [2, 3, 4] = .ok 24 ∧ unravel 17 [2, 3, 4] = .ok [1, 1, 1] ∧
      (∃ strides, LeadsBack [2, 3, 4] 17 [1, 1, 1] strides) ∧
      (∃ indices, Enumerates indices [2, 3, 4] ∧ indices.length = 24 ∧
        indices[17]? = some [1, 1, 1]) ∧
      ¬ ∃ index, unravel 24 [2, 3, 4] = .ok index := by
  have hcount : elementCount [2, 3, 4] = .ok 24 := by decide
  have hlast : unravel 17 [2, 3, 4] = .ok [1, 1, 1] := by decide
  obtain ⟨hfound, -, hback, hall⟩ := unravel_inverts [2, 3, 4]
  obtain ⟨indices, henumerates, hlength, hresults⟩ := hall 24 hcount
  refine ⟨hcount, hlast, hback 17 [1, 1, 1] hlast,
    ⟨indices, henumerates, hlength, (hresults 17 [1, 1, 1]).mp hlast⟩, fun hfar => ?_⟩
  obtain ⟨count, hcount', hlt⟩ := (hfound 24).mp hfar
  rw [hcount] at hcount'
  cases hcount'
  omega

end NetTrial.Shape
