import Mathlib.Data.List.Nodup
import NetTrial.Proofs.Odometers
/-!
# Rearranged values

A rearranged value stands at the multi-index that takes its coordinates, axis by axis, from the
multi-index where the value stood before. Coordinate times stride is summed over all axes in
either order, which is why the strides are rearranged along with the shape. For every permutation
there is exactly one such multi-index, so no value is lost and none is doubled.
-/

namespace NetTrial.Shape

variable {α : Type} {perm : List Nat} {values moved : List α} {shape target : Shape}
  {index source : List Nat}

/-! ## Lists in the order of a permutation -/

/-- Whether a list takes each of its entries from the one of another list that a permutation
names. -/
def TakesFrom (perm source index : List Nat) : Prop :=
  ∀ i axis : Nat, perm[i]? = some axis → index[i]? = source[axis]?

theorem length_of_perm {rank : Nat} (h : perm.Perm (List.range rank)) : perm.length = rank := by
  rw [h.length_eq, List.length_range]

theorem lt_of_perm {rank axis : Nat} (h : perm.Perm (List.range rank)) (haxis : axis ∈ perm) :
    axis < rank :=
  List.mem_range.mp (h.mem_iff.mp haxis)

/-- The permutations of the axes are the lists of as many axes without a repetition. -/
theorem isPermutation_iff {rank : Nat} :
    isPermutation rank perm = true ↔ perm.Perm (List.range rank) := by
  constructor
  · exact perm_range_of_isPermutation
  · intro h
    have hnodup : perm.Nodup := h.nodup_iff.mpr List.nodup_range
    have hall : ∀ axis ∈ perm, axis < rank := fun axis haxis => lt_of_perm h haxis
    exact isPermutation_eq_true_iff.mpr ⟨length_of_perm h, hall, hnodup⟩

theorem validatePermutation_eq_ok_iff {rank : Nat} :
    validatePermutation rank perm = .ok () ↔ perm.Perm (List.range rank) := by
  rw [validatePermutation, ← isPermutation_iff]
  by_cases h : isPermutation rank perm = true
  · simp [h]
  · simp [h]

theorem length_rearrange (perm entries : List Nat) :
    (rearrange perm entries).length = perm.length := List.length_map _

/-- What is rearranged takes its entries from what was there. -/
theorem takesFrom_iff (hperm : ∀ axis ∈ perm, axis < source.length) :
    index.length = perm.length ∧ TakesFrom perm source index ↔ index = rearrange perm source := by
  have hentry : ∀ i axis : Nat,
      perm[i]? = some axis → (rearrange perm source)[i]? = source[axis]? := by
    intro i axis hi
    have hlt : axis < source.length := hperm axis (List.mem_of_getElem? hi)
    rw [rearrange, List.getElem?_map, hi, Option.map_some, List.getD_eq_getElem?_getD,
      List.getElem?_eq_getElem hlt, Option.getD_some]
  constructor
  · rintro ⟨hlength, htakes⟩
    refine List.ext_getElem? fun i => ?_
    by_cases hi : i < perm.length
    · have hsome : perm[i]? = some perm[i] := List.getElem?_eq_getElem hi
      rw [htakes i perm[i] hsome, hentry i perm[i] hsome]
    · have hshort : (rearrange perm source).length ≤ i := by
        rw [length_rearrange]
        omega
      rw [List.getElem?_eq_none hshort, List.getElem?_eq_none (by omega)]
  · intro h
    subst h
    exact ⟨length_rearrange perm source, hentry⟩

/-- A place is the same sum in whatever order the axes are taken. -/
theorem ravel_perm {axes other : List Nat} (h : axes.Perm other) (f g : Nat → Nat) :
    ravel (axes.map f) (axes.map g) = ravel (other.map f) (other.map g) := by
  induction h with
  | nil => rfl
  | cons axis _ ih => simp only [List.map_cons, ravel, ih]
  | swap first second axes =>
    simp only [List.map_cons, ravel]
    omega
  | trans _ _ ihfirst ihsecond => exact ihfirst.trans ihsecond

theorem ravel_rearrange (hperm : perm.Perm (List.range shape.length))
    (hindex : index.length = shape.length) {strides : List Nat}
    (hstrides : strides.length = shape.length) :
    ravel (rearrange perm index) (rearrange perm strides) = ravel index strides := by
  have hsum := ravel_perm hperm (fun axis => index.getD axis 0) fun axis => strides.getD axis 0
  refine hsum.trans ?_
  have hfirst := rearrange_range index
  have hsecond := rearrange_range strides
  rw [hindex, rearrange] at hfirst
  rw [hstrides, rearrange] at hsecond
  rw [hfirst, hsecond]

/-- A multi-index lies below a shape exactly when it does so axis by axis in any order. -/
theorem indexes_rearrange (hperm : perm.Perm (List.range shape.length))
    (hindex : index.length = shape.length) :
    Indexes (rearrange perm index) (rearrange perm shape) ↔ Indexes index shape := by
  have haxes : ∀ axes : List Nat, Indexes (rearrange axes index) (rearrange axes shape) ↔
      ∀ axis ∈ axes, index.getD axis 0 < shape.getD axis 0 := by
    intro axes
    rw [Indexes, rearrange, rearrange, List.forall₂_map_left_iff, List.forall₂_map_right_iff,
      List.forall₂_same]
  have hrange := haxes (List.range shape.length)
  rw [rearrange_range shape, ← hindex, rearrange_range index, hindex] at hrange
  rw [haxes, hrange]
  exact ⟨fun h axis ha => h axis (hperm.mem_iff.mpr ha),
    fun h axis ha => h axis (hperm.mem_iff.mp ha)⟩

/-- Rearranging twice is rearranging once by the rearranged permutation. -/
theorem rearrange_rearrange {first second : List Nat} (h : ∀ axis ∈ second, axis < first.length)
    (entries : List Nat) :
    rearrange second (rearrange first entries) = rearrange (rearrange second first) entries := by
  rw [rearrange, rearrange, rearrange, rearrange, List.map_map]
  refine List.map_congr_left fun axis haxis => ?_
  have hlt : axis < first.length := h axis haxis
  simp [List.getElem?_eq_getElem hlt]

/-- For each axis, where a permutation lists it. -/
def standings (perm : List Nat) : List Nat :=
  (List.range perm.length).map fun axis => perm.idxOf axis

theorem getElem?_idxOf {axis : Nat} (h : axis ∈ perm) : perm[perm.idxOf axis]? = some axis := by
  have hlt : perm.idxOf axis < perm.length := List.idxOf_lt_length_of_mem h
  rw [List.getElem?_eq_getElem hlt, List.getElem_idxOf hlt]

/-- The axes stand where the standings of a permutation say. -/
theorem rearrange_standings {rank : Nat} (hperm : perm.Perm (List.range rank)) :
    rearrange (standings perm) perm = List.range rank := by
  have hlength : perm.length = rank := length_of_perm hperm
  rw [rearrange, standings, List.map_map, hlength]
  refine (List.map_congr_left fun axis haxis => ?_).trans (List.map_id _)
  have hmem : axis ∈ perm := hperm.mem_iff.mpr haxis
  simp [getElem?_idxOf hmem]

/-- A permutation takes the standings back to the axes. -/
theorem rearrange_of_standings {rank : Nat} (hperm : perm.Perm (List.range rank)) :
    rearrange perm (standings perm) = List.range rank := by
  have hlength : perm.length = rank := length_of_perm hperm
  have hnodup : perm.Nodup := hperm.nodup_iff.mpr List.nodup_range
  refine List.ext_getElem (by simp [length_rearrange, hlength]) fun i hi _ => ?_
  have hlt : i < perm.length := by rwa [length_rearrange] at hi
  have haxis : perm[i] < rank := lt_of_perm hperm (List.getElem_mem hlt)
  simp [rearrange, standings, hlength, haxis, hnodup.idxOf_getElem]

theorem standings_perm {rank : Nat} (hperm : perm.Perm (List.range rank)) :
    (standings perm).Perm (List.range rank) := by
  have hlength : perm.length = rank := length_of_perm hperm
  have hback : ((standings perm).map fun place => perm.getD place 0).Nodup := by
    have hrange := rearrange_standings hperm
    rw [rearrange] at hrange
    rw [hrange]
    exact List.nodup_range
  have hbelow : ∀ place ∈ standings perm, place < rank := by
    intro place hplace
    obtain ⟨axis, haxis, hidx⟩ := List.mem_map.mp hplace
    rw [hlength] at haxis
    rw [← hidx, ← hlength]
    exact List.idxOf_lt_length_of_mem (hperm.mem_iff.mpr haxis)
  have hsub : standings perm ⊆ List.range rank := fun place hplace =>
    List.mem_range.mpr (hbelow place hplace)
  refine (List.subperm_of_subset (List.Nodup.of_map _ hback) hsub).perm_of_length_le ?_
  simp [standings, hlength]

/-! ## Values -/

/-- Strides that were multiplied up without an overflow are the sizes of the inner shapes. -/
theorem stridesAndSize_gives (shape : Shape) :
    Gives (stridesAndSize shape) fun r => r = (innerSizes shape, size shape) := by
  induction shape with
  | nil => exact gives_ok rfl
  | cons d ds ih =>
    rw [stridesAndSize]
    refine .bind (ih.mono fun r hr => ?_)
    subst hr
    refine .bind ⟨fun {n} hn => ?_⟩
    have hproduct : n = size ds * d := (shapeProduct_eq_ok.mp hn).1
    refine gives_ok ?_
    rw [innerSizes, size, hproduct, Nat.mul_comm]

theorem strides_gives (shape : Shape) : Gives (strides shape) fun ss => ss = innerSizes shape := by
  constructor
  intro ss hs
  rw [strides] at hs
  cases hboth : stridesAndSize shape with
  | error e =>
    rw [hboth] at hs
    cases hs
  | ok r =>
    rw [hboth, (stridesAndSize_gives shape).of_ok hboth] at hs
    exact (Except.ok.inj hs).symm

/-- Dimensions without a zero have strides when their product is a word. -/
theorem strides_of_lt (hlt : size shape < wordLimit) (hne : size shape ≠ 0) :
    strides shape = .ok (innerSizes shape) := by
  have hboth : stridesAndSize shape = .ok (innerSizes shape, size shape) := by
    induction shape with
    | nil => rfl
    | cons d ds ih =>
      rw [size] at hlt hne
      obtain ⟨hd, hds⟩ := Nat.mul_ne_zero_iff.mp hne
      have hle : size ds ≤ d * size ds := Nat.le_mul_of_pos_left _ (Nat.pos_of_ne_zero hd)
      have hproduct : shapeProduct (size ds) d = .ok (d * size ds) :=
        shapeProduct_eq_ok.mpr ⟨Nat.mul_comm _ _, by rwa [Nat.mul_comm]⟩
      rw [stridesAndSize, ih (by omega) hds]
      simp only [bind, Except.bind, hproduct]
      rfl
  rw [strides, hboth]
  rfl

/-- The values, each read where the rearranged strides say. -/
def movedValues [Inhabited α] (values : List α) (shape : Shape) (perm : List Nat) : List α :=
  (List.range values.length).map fun position =>
    values.toArray.getD
      (ravel (coordinates position (rearrange perm shape)) (rearrange perm (innerSizes shape)))
      default

/-- Values are moved by a permutation of the axes, when there are as many as the shape asks for
and the strides are words. -/
theorem permuteValues_eq_ok_iff [Inhabited α] :
    permuteValues values shape perm = .ok (target, moved) ↔
      perm.Perm (List.range shape.length) ∧ shape.elementCount = .ok values.length ∧
        strides shape = .ok (innerSizes shape) ∧ target = rearrange perm shape ∧
        moved = movedValues values shape perm := by
  rw [permuteValues, permuted, validatePermutation, ← isPermutation_iff]
  by_cases hperm : isPermutation shape.length perm = true
  · rw [if_pos hperm]
    cases hcount : shape.elementCount with
    | error e => simp [bind, Except.bind, pure, Except.pure]
    | ok count =>
      by_cases hlength : values.length = count
      · cases hstrides : strides shape with
        | error e => simp [bind, Except.bind, pure, Except.pure, hlength]
        | ok ss =>
          have hss : ss = innerSizes shape := (strides_gives shape).of_ok hstrides
          subst hss hlength
          simp only [bind, Except.bind, pure, Except.pure, if_true, Except.ok.injEq,
            Prod.mk.injEq, hperm, true_and]
          exact ⟨fun h => ⟨h.1.symm, h.2.symm⟩, fun h => ⟨h.1.symm, h.2.symm⟩⟩
      · have hne : count ≠ values.length := fun h => hlength h.symm
        simp [bind, Except.bind, pure, Except.pure, hlength, hne]
  · rw [if_neg hperm]
    simp [bind, Except.bind, hperm]

/-- Every multi-index below the rearranged shape takes its coordinates from one below the shape,
and from no other. -/
theorem exists_source (hperm : perm.Perm (List.range shape.length))
    (h : Indexes index (rearrange perm shape)) :
    ∃ source, Indexes source shape ∧ rearrange perm source = index := by
  have hlength : perm.length = shape.length := length_of_perm hperm
  have hindex : index.length = shape.length := by
    rw [h.length_eq, length_rearrange, hlength]
  have hbelow : ∀ axis ∈ perm, axis < (standings perm).length := by
    intro axis haxis
    rw [standings, List.length_map, List.length_range, hlength]
    exact lt_of_perm hperm haxis
  have hback : rearrange perm (rearrange (standings perm) index) = index := by
    rw [rearrange_rearrange hbelow, rearrange_of_standings hperm, ← hindex, rearrange_range]
  have hsource : (rearrange (standings perm) index).length = shape.length := by
    rw [length_rearrange, standings, List.length_map, List.length_range, hlength]
  refine ⟨rearrange (standings perm) index, ?_, hback⟩
  rwa [← indexes_rearrange hperm hsource, hback]

/-- The offset of a rearranged multi-index is the place of the multi-index before. -/
theorem offset_eq_place (hperm : perm.Perm (List.range shape.length))
    (hsource : Indexes source shape) :
    ravel (rearrange perm source) (rearrange perm (innerSizes shape)) = place source shape := by
  rw [ravel_rearrange hperm hsource.length_eq (length_innerSizes shape), ravel_innerSizes]

theorem movedValues_element? [Inhabited α] (hperm : perm.Perm (List.range shape.length))
    (hlength : values.length = size shape) (hsource : Indexes source shape) :
    element? (movedValues values shape perm) (rearrange perm shape) (rearrange perm source) =
      element? values shape source := by
  have hindex : Indexes (rearrange perm source) (rearrange perm shape) :=
    (indexes_rearrange hperm hsource.length_eq).mpr hsource
  have hsize : size (rearrange perm shape) = values.length := by
    rw [size_rearrange (isPermutation_iff.mpr hperm), hlength]
  have hplace : place (rearrange perm source) (rearrange perm shape) < values.length :=
    hsize ▸ place_lt hindex
  rw [element?_of_indexes hlength hsource default, element?, if_pos hindex, movedValues,
    List.getElem?_map, List.getElem?_range hplace, Option.map_some, coordinates_place hindex,
    offset_eq_place hperm hsource]

/-- Every read of the rearrangement stays inside the values. -/
theorem offset_lt (hperm : perm.Perm (List.range shape.length)) {position : Nat}
    (h : position < size (rearrange perm shape)) :
    ravel (coordinates position (rearrange perm shape)) (rearrange perm (innerSizes shape)) <
      size shape := by
  obtain ⟨source, hsource, hindex⟩ := exists_source hperm (indexes_coordinates h).1
  rw [← hindex, offset_eq_place hperm hsource]
  exact place_lt hsource

theorem coordinates_zero (shape : Shape) : coordinates 0 shape = shape.map fun _ => 0 := by
  induction shape with
  | nil => rfl
  | cons d ds ih => rw [coordinates, Nat.zero_div, Nat.zero_mod, ih, List.map_cons]

/-- The rearrangement by an odometer gives what the rearrangement by coordinates gives, and none
of its tests fails. -/
theorem walkValues?_eq [Inhabited α] (values : List α) (shape : Shape) (perm : List Nat) :
    walkValues? values shape perm = some <$> permuteValues values shape perm := by
  rw [walkValues?, permuteValues]
  cases htarget : shape.permuted perm with
  | error e => rfl
  | ok target =>
    cases hcount : shape.elementCount with
    | error e => rfl
    | ok count =>
      simp only [bind, Except.bind]
      by_cases hlength : values.length = count
      · rw [if_pos hlength, if_pos hlength]
        cases hstrides : shape.strides with
        | error e => rfl
        | ok ss =>
          have hss : ss = innerSizes shape := (strides_gives shape).of_ok hstrides
          obtain ⟨hvalid, htarget⟩ := (permuted_gives shape perm).of_ok htarget
          obtain ⟨hcount, hword⟩ := elementCount_eq_ok hcount
          have hperm : perm.Perm (List.range shape.length) := isPermutation_iff.mp hvalid
          have hsize : size target = count := by rw [htarget, size_rearrange hvalid, hcount]
          have hreads : ∀ n < size target,
              ravel (coordinates n target) (rearrange perm ss) < values.toArray.size := by
            intro n hn
            rw [htarget] at hn
            have hoffset := offset_lt hperm hn
            rw [← hcount, ← hlength] at hoffset
            rwa [htarget, hss]
          have hsteps : 0 + count = size target := by omega
          have hwalk := walk?_coordinates (by omega) (by rwa [List.size_toArray, hlength]) hreads
            hsteps
          rw [Nat.zero_mod, coordinates_zero] at hwalk
          simp only [hwalk, List.range_eq_range']
          rfl
      · rw [if_neg hlength, if_neg hlength]
        rfl

/-- What it is for values to be moved by a permutation: the shape and each multi-index below it
take their entries from those before, and the value at the one is the value at the other. -/
structure Rearranged (perm : List Nat) (shape target : Shape) (values moved : List α) : Prop where
  /-- The dimensions are those of the axes that the permutation lists. -/
  axes : target.length = perm.length ∧ TakesFrom perm shape target
  /-- No value is lost or added. -/
  length : moved.length = values.length
  /-- Each multi-index takes its coordinates from exactly one, and its value with them. -/
  moves : ∀ index, Indexes index target → ∃ source, Indexes source shape ∧
    TakesFrom perm source index ∧
    (∀ other, Indexes other shape → TakesFrom perm other index → other = source) ∧
    ∃ value, element? moved target index = some value ∧ element? values shape source = some value

/-- A multi-index is known from what is taken from it. -/
theorem rearrange_inj {other : List Nat} (hperm : perm.Perm (List.range shape.length))
    (hsource : source.length = shape.length) (hother : other.length = shape.length)
    (h : rearrange perm other = rearrange perm source) : other = source := by
  have hlength : perm.length = shape.length := length_of_perm hperm
  have hbelow : ∀ axis ∈ standings perm, axis < perm.length := by
    intro axis haxis
    rw [hlength]
    exact lt_of_perm (standings_perm hperm) haxis
  have hback : ∀ entries : List Nat, entries.length = shape.length →
      rearrange (standings perm) (rearrange perm entries) = entries := by
    intro entries hentries
    rw [rearrange_rearrange hbelow, rearrange_standings hperm, ← hentries, rearrange_range]
  rw [← hback other hother, h, hback source hsource]

theorem rearranged_movedValues [Inhabited α] (hperm : perm.Perm (List.range shape.length))
    (hlength : values.length = size shape) :
    Rearranged perm shape (rearrange perm shape) values (movedValues values shape perm) := by
  have hbelow : ∀ entries : List Nat, entries.length = shape.length →
      ∀ axis ∈ perm, axis < entries.length := by
    intro entries hentries axis haxis
    rw [hentries]
    exact lt_of_perm hperm haxis
  refine { axes := (takesFrom_iff (hbelow shape rfl)).mpr rfl, length := ?_, moves := ?_ }
  · rw [movedValues, List.length_map, List.length_range]
  · intro index hindex
    obtain ⟨source, hsource, hrearrange⟩ := exists_source hperm hindex
    have hlen : source.length = shape.length := hsource.length_eq
    have htakes := (takesFrom_iff (hbelow source hlen)).mpr hrearrange.symm
    refine ⟨source, hsource, htakes.2, ?_, ?_⟩
    · intro other hother htaken
      have hsame := (takesFrom_iff (hbelow other hother.length_eq)).mp ⟨htakes.1, htaken⟩
      exact rearrange_inj hperm hlen hother.length_eq (hsame.symm.trans hrearrange.symm)
    · have hmoved := movedValues_element? hperm hlength hsource
      rw [hrearrange] at hmoved
      rw [hmoved]
      exact ⟨_, element?_of_indexes hlength hsource default,
        element?_of_indexes hlength hsource default⟩

/-- Values are refused for a list that is no permutation of the axes. -/
theorem permuteValues_of_not_perm [Inhabited α] (values : List α)
    (h : ¬ perm.Perm (List.range shape.length)) :
    permuteValues values shape perm = .error (.invalidPermutation shape.length perm) := by
  have hinvalid : ¬ isPermutation shape.length perm = true := fun hp => h (isPermutation_iff.mp hp)
  rw [permuteValues, permuted, validatePermutation, if_neg hinvalid]
  rfl

/-- Rearranging values moves each of them to the multi-index that takes its coordinates from the
one where the value stood. An odometer that tests every product, sum and read gives the same.
Every permutation of axes of at least one element is accepted, and nothing but permutations of
the axes and lists of the right length is. -/
theorem permuteValues_rearranges [Inhabited α] (values : List α) (shape : Shape)
    (perm : List Nat) :
    (∀ target moved, permuteValues values shape perm = .ok (target, moved) →
      Rearranged perm shape target values moved) ∧
    walkValues? values shape perm = some <$> permuteValues values shape perm ∧
    (perm.Perm (List.range shape.length) → (∀ d ∈ shape, 1 ≤ d) → size shape < wordLimit →
      values.length = size shape → ∃ result, permuteValues values shape perm = .ok result) ∧
    (¬ perm.Perm (List.range shape.length) →
      permuteValues values shape perm = .error (.invalidPermutation shape.length perm)) ∧
    (values.length ≠ size shape → ∃ cause, permuteValues values shape perm = .error cause) := by
  refine ⟨?_, walkValues?_eq values shape perm, ?_, permuteValues_of_not_perm values, ?_⟩
  · intro target moved h
    obtain ⟨hperm, hcount, -, htarget, hmoved⟩ := (permuteValues_eq_ok_iff).mp h
    rw [htarget, hmoved]
    exact rearranged_movedValues hperm (elementCount_eq_ok hcount).1
  · intro hperm hdims hlt hlength
    have hne : size shape ≠ 0 := size_ne_zero_of_pos hdims
    have hcount : shape.elementCount = .ok values.length := hlength ▸ elementCount_of_lt hlt hne
    exact ⟨_, (permuteValues_eq_ok_iff).mpr ⟨hperm, hcount, strides_of_lt hlt hne, rfl, rfl⟩⟩
  · intro hne
    cases h : permuteValues values shape perm with
    | error cause => exact ⟨cause, rfl⟩
    | ok result =>
      obtain ⟨-, hcount, -⟩ := (permuteValues_eq_ok_iff).mp h
      exact absurd (elementCount_eq_ok hcount).1 hne

/-- Two images of two rows and three columns each, with their channels moved behind. A list that
names an axis twice and a list of five values for six places are refused. -/
theorem permuteValues_rearranges_channels :
    [0, 2, 3, 1].Perm (List.range 4) ∧ (∀ d ∈ [1, 2, 2, 3], 1 ≤ d) ∧ size [1, 2, 2, 3] < wordLimit ∧
      (∃ moved, permuteValues (List.range 12) [1, 2, 2, 3] [0, 2, 3, 1] =
          .ok ([1, 2, 3, 2], moved) ∧
        Rearranged [0, 2, 3, 1] [1, 2, 2, 3] [1, 2, 3, 2] (List.range 12) moved) ∧
      ¬ [0, 0].Perm (List.range 2) ∧
      permuteValues [7] [1, 1] [0, 0] = .error (.invalidPermutation 2 [0, 0]) ∧
      (List.range 5).length ≠ size [2, 3] ∧
      ∃ cause, permuteValues (List.range 5) [2, 3] [1, 0] = .error cause := by
  have hperm : [0, 2, 3, 1].Perm (List.range 4) := by decide
  have hdims : ∀ d ∈ [1, 2, 2, 3], 1 ≤ d := by decide
  have hword : size [1, 2, 2, 3] < wordLimit := by decide
  have htwice : ¬ [0, 0].Perm (List.range 2) := by decide
  have hshort : (List.range 5).length ≠ size [2, 3] := by decide
  obtain ⟨hmoves, -, haccepted, -, -⟩ :=
    permuteValues_rearranges (List.range 12) [1, 2, 2, 3] [0, 2, 3, 1]
  obtain ⟨⟨target, moved⟩, hmoved⟩ := haccepted hperm hdims hword rfl
  obtain rfl : target = [1, 2, 3, 2] := ((permuteValues_eq_ok_iff).mp hmoved).2.2.2.1
  refine ⟨hperm, hdims, hword, ⟨moved, hmoved, hmoves _ _ hmoved⟩, htwice, ?_, hshort, ?_⟩
  · exact (permuteValues_rearranges [7] [1, 1] [0, 0]).2.2.2.1 htwice
  · exact (permuteValues_rearranges (List.range 5) [2, 3] [1, 0]).2.2.2.2 hshort

end NetTrial.Shape
