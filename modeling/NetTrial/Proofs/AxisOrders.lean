import NetTrial.Proofs.BuiltTensors
import NetTrial.Proofs.Rearrangements
/-!
# Rearranging tensors twice

Values are known from their multi-indices, so rearranging twice is rearranging once by the
permutation that takes its axes through both. The axes in their own order change nothing.
Therefore the standings of a permutation undo it, and the two axis orders of an activation tensor
lead into each other and back, word for word and byte for byte.
-/

namespace NetTrial

namespace Shape

variable {α : Type} {values : List α} {shape : Shape} {first second : List Nat}

/-- Two lists with the same value at every multi-index are the same. -/
theorem ext_element? {other : List α} (hvalues : values.length = size shape)
    (hother : other.length = size shape)
    (h : ∀ index, Indexes index shape → element? values shape index = element? other shape index) :
    values = other := by
  refine List.ext_getElem? fun position => ?_
  by_cases hposition : position < size shape
  · obtain ⟨hindexes, hplace⟩ := indexes_coordinates hposition
    have hvalue := h _ hindexes
    rwa [element?, element?, if_pos hindexes, if_pos hindexes, hplace] at hvalue
  · rw [List.getElem?_eq_none (by omega), List.getElem?_eq_none (by omega)]

variable [Inhabited α]

theorem length_movedValues (values : List α) (shape : Shape) (perm : List Nat) :
    (movedValues values shape perm).length = values.length := by
  rw [movedValues, List.length_map, List.length_range]

/-- The axes that one permutation lists are places in another. -/
theorem lt_length_of_perm {rank : Nat} (hfirst : first.Perm (List.range rank))
    (hsecond : second.Perm (List.range rank)) : ∀ axis ∈ second, axis < first.length := by
  intro axis haxis
  rw [length_of_perm hfirst]
  exact lt_of_perm hsecond haxis

/-- The axes of a permutation taken through another are a permutation again. -/
theorem rearrange_perm {rank : Nat} (hfirst : first.Perm (List.range rank))
    (hsecond : second.Perm (List.range rank)) :
    (rearrange second first).Perm (List.range rank) := by
  have hlength : first.length = rank := length_of_perm hfirst
  have hmoved : (rearrange second first).Perm (rearrange (List.range rank) first) :=
    hsecond.map _
  rw [← hlength, rearrange_range] at hmoved
  exact hmoved.trans hfirst

/-- Values moved twice are the values moved once by the composed permutation. -/
theorem movedValues_movedValues (hfirst : first.Perm (List.range shape.length))
    (hsecond : second.Perm (List.range shape.length)) (hlength : values.length = size shape) :
    movedValues (movedValues values shape first) (rearrange first shape) second =
      movedValues values shape (rearrange second first) := by
  have hrank : (rearrange first shape).length = shape.length := by
    rw [length_rearrange, length_of_perm hfirst]
  have hsecond' : second.Perm (List.range (rearrange first shape).length) := by rwa [hrank]
  have hcomposed := rearrange_perm hfirst hsecond
  have hsize : size (rearrange first shape) = size shape :=
    size_rearrange (isPermutation_iff.mpr hfirst)
  have hsize' : size (rearrange (rearrange second first) shape) = size shape :=
    size_rearrange (isPermutation_iff.mpr hcomposed)
  have hbelow := lt_length_of_perm hfirst hsecond
  have hshape := rearrange_rearrange hbelow shape
  have hmoved : (movedValues values shape first).length = size (rearrange first shape) := by
    rw [length_movedValues, hlength, hsize]
  have hfull :
      (movedValues (movedValues values shape first) (rearrange first shape) second).length =
        size (rearrange (rearrange second first) shape) := by
    rw [length_movedValues, length_movedValues, hlength, hsize']
  have hfull' : (movedValues values shape (rearrange second first)).length =
      size (rearrange (rearrange second first) shape) := by
    rw [length_movedValues, hlength, hsize']
  refine ext_element? hfull hfull' fun index hindex => ?_
  obtain ⟨source, hsource, hcarried⟩ := exists_source hcomposed hindex
  have hmiddle : Indexes (rearrange first source) (rearrange first shape) :=
    (indexes_rearrange hfirst hsource.length_eq).mpr hsource
  have honce := movedValues_element? hfirst hlength hsource
  have htwice := movedValues_element? hsecond' hmoved hmiddle
  rw [rearrange_rearrange hbelow source, hshape, honce] at htwice
  rw [← hcarried, htwice, movedValues_element? hcomposed hlength hsource]

/-- The axes in their own order leave the values where they are. -/
theorem movedValues_range (hlength : values.length = size shape) :
    movedValues values shape (List.range shape.length) = values := by
  have hperm : (List.range shape.length).Perm (List.range shape.length) := List.Perm.refl _
  refine ext_element? (by rw [length_movedValues, hlength]) hlength fun index hindex => ?_
  have hmoved := movedValues_element? hperm hlength hindex
  have hkept := rearrange_range index
  rw [hindex.length_eq] at hkept
  rwa [rearrange_range, hkept] at hmoved

/-- A permutation is undone by its standings. -/
theorem inversePermutation_eq {perm : List Nat} {rank : Nat} (h : perm.Perm (List.range rank)) :
    inversePermutation perm = .ok (standings perm) := by
  have hvalid : validatePermutation perm.length perm = .ok () := by
    rw [validatePermutation_eq_ok_iff, length_of_perm h]
    exact h
  rw [inversePermutation, hvalid]
  rfl

end Shape

/-- The elements moved by a permutation of the axes. -/
def Elements.moved (elements : Elements) (shape : Shape) (perm : List Nat) : Elements :=
  match elements with
  | .f32 values => .f32 (Shape.movedValues values shape perm)
  | .u8 values => .u8 (Shape.movedValues values shape perm)

namespace Tensor

variable {t : Tensor} {first second perm : List Nat}

/-- A tensor of the size that its shape asks for that has elements. -/
structure Filled (t : Tensor) : Prop extends t.Sized where
  /-- There are elements. -/
  some : t.length ≠ 0

/-- The tensor with its axes rearranged, whatever its elements are. -/
def rearranged (t : Tensor) (perm : List Nat) : Tensor :=
  ⟨Shape.rearrange perm t.shape, t.elements.moved t.shape perm⟩

theorem rank_rearranged (hperm : perm.Perm (List.range t.shape.length)) :
    (t.rearranged perm).shape.length = t.shape.length := by
  rw [rearranged, Shape.length_rearrange, Shape.length_of_perm hperm]

theorem filled_of_ofElements {shape : Shape} {elements : Elements}
    (h : ofElements shape elements = .ok t) (hdims : ∀ d ∈ t.shape, 1 ≤ d) : t.Filled := by
  have hsized : t.Sized := (ofElements_sized shape elements).of_ok h
  have hne : Shape.size t.shape ≠ 0 := Shape.size_ne_zero_of_pos hdims
  exact { toSized := hsized, some := fun hzero => hne (hsized.length.symm.trans hzero) }

theorem Sized.rearranged_range (h : t.Sized) : t.rearranged (List.range t.shape.length) = t := by
  obtain ⟨shape, elements⟩ := t
  have hlength := h.length
  cases elements with
  | f32 values =>
    simp only [Tensor.rearranged, Elements.moved, Shape.rearrange_range]
    rw [Shape.movedValues_range hlength]
  | u8 values =>
    simp only [Tensor.rearranged, Elements.moved, Shape.rearrange_range]
    rw [Shape.movedValues_range hlength]

namespace Filled

theorem permuteAxes (h : t.Filled) (hperm : perm.Perm (List.range t.shape.length)) :
    t.permuteAxes perm = .ok (t.rearranged perm) := by
  obtain ⟨shape, elements⟩ := t
  obtain ⟨⟨hlength, hbound⟩, hsome⟩ := h
  have hmoves : ∀ {α : Type} [Inhabited α] (values : List α),
      values.length = (Tensor.mk shape elements).length →
      Shape.permuteValues values shape perm =
        .ok (Shape.rearrange perm shape, Shape.movedValues values shape perm) := by
    intro α _ values hvalues
    rw [← hvalues] at hlength hbound hsome
    rw [hlength] at hbound hsome
    have hcount := Shape.elementCount_of_lt hbound hsome
    rw [← hlength] at hcount
    exact Shape.permuteValues_eq_ok_iff.mpr
      ⟨hperm, hcount, Shape.strides_of_lt hbound hsome, rfl, rfl⟩
  cases elements with
  | f32 values =>
    rw [Tensor.permuteAxes]
    simp only [hmoves values rfl, bind, Except.bind]
    rfl
  | u8 values =>
    rw [Tensor.permuteAxes]
    simp only [hmoves values rfl, bind, Except.bind]
    rfl

theorem rearranged (h : t.Filled) (hperm : perm.Perm (List.range t.shape.length)) :
    (t.rearranged perm).Filled := by
  have hlength : (t.rearranged perm).length = t.length := by
    obtain ⟨shape, elements⟩ := t
    cases elements <;> exact Shape.length_movedValues _ _ _
  have hsize : Shape.size (t.rearranged perm).shape = Shape.size t.shape :=
    Shape.size_rearrange (Shape.isPermutation_iff.mpr hperm)
  exact
    { length := by rw [hlength, hsize, h.length]
      bound := hlength ▸ h.bound
      some := hlength ▸ h.some }

/-- Rearranging twice is rearranging once by the composed permutation. -/
theorem rearranged_rearranged (h : t.Filled) (hfirst : first.Perm (List.range t.shape.length))
    (hsecond : second.Perm (List.range t.shape.length)) :
    (t.rearranged first).rearranged second = t.rearranged (Shape.rearrange second first) := by
  have hbelow := Shape.lt_length_of_perm hfirst hsecond
  obtain ⟨shape, elements⟩ := t
  have hlength := h.length
  cases elements with
  | f32 values =>
    simp only [Tensor.rearranged, Elements.moved, Shape.rearrange_rearrange hbelow]
    rw [Shape.movedValues_movedValues hfirst hsecond hlength]
  | u8 values =>
    simp only [Tensor.rearranged, Elements.moved, Shape.rearrange_rearrange hbelow]
    rw [Shape.movedValues_movedValues hfirst hsecond hlength]

/-- Two permutations that lead through both axes back to each axis undo each other. -/
theorem permuteAxes_back (h : t.Filled) (hfirst : first.Perm (List.range t.shape.length))
    (hsecond : second.Perm (List.range t.shape.length))
    (hback : Shape.rearrange second first = List.range t.shape.length) :
    (t.rearranged first).permuteAxes second = .ok t := by
  have hrank := rank_rearranged hfirst
  rw [(h.rearranged hfirst).permuteAxes (by rwa [hrank]), h.rearranged_rearranged hfirst hsecond,
    hback, h.rearranged_range]

end Filled

/-- From any axis order to any and back is no way at all. -/
theorem permutationTo_back (source target : AxisOrder) :
    (source.permutationTo target).Perm (List.range 4) ∧
      Shape.rearrange (target.permutationTo source) (source.permutationTo target) =
        List.range 4 := by
  cases source <;> cases target <;> decide

/-- Rearranging a tensor by one permutation of its axes and then by another gives what the
composed permutation gives at once. The axes in their own order give the tensor itself, and so do
a permutation and its inverse one after the other, and an axis order and back. -/
theorem permuteAxes_composes {shape : Shape} {elements : Elements}
    (hbuilt : ofElements shape elements = .ok t) (hdims : ∀ d ∈ t.shape, 1 ≤ d)
    (hfirst : first.Perm (List.range t.shape.length))
    (hsecond : second.Perm (List.range t.shape.length)) :
    (∃ once twice, t.permuteAxes first = .ok once ∧ once.permuteAxes second = .ok twice ∧
      ∀ composed, composed.length = second.length → Shape.TakesFrom second first composed →
        t.permuteAxes composed = .ok twice) ∧
    t.permuteAxes (List.range t.shape.length) = .ok t ∧
    (∃ once inverse, t.permuteAxes first = .ok once ∧
      Shape.inversePermutation first = .ok inverse ∧ once.permuteAxes inverse = .ok t) ∧
    (t.shape.length = 4 → ∀ source target, ∃ converted,
      t.convert source target = .ok converted ∧ converted.convert target source = .ok t) := by
  have h : t.Filled := filled_of_ofElements hbuilt hdims
  have hrank := rank_rearranged hfirst
  refine ⟨?_, ?_, ?_, ?_⟩
  · refine ⟨_, _, h.permuteAxes hfirst,
      (h.rearranged hfirst).permuteAxes (by rwa [hrank]), fun composed hlength htakes => ?_⟩
    have hbelow := Shape.lt_length_of_perm hfirst hsecond
    have hcomposed := (Shape.takesFrom_iff hbelow).mp ⟨hlength, htakes⟩
    rw [hcomposed, h.permuteAxes (Shape.rearrange_perm hfirst hsecond),
      h.rearranged_rearranged hfirst hsecond]
  · rw [h.permuteAxes (List.Perm.refl _), h.rearranged_range]
  · exact ⟨_, _, h.permuteAxes hfirst, Shape.inversePermutation_eq hfirst,
      h.permuteAxes_back hfirst (Shape.standings_perm hfirst) (Shape.rearrange_standings hfirst)⟩
  · intro hfour source target
    obtain ⟨hthere, hback⟩ := permutationTo_back source target
    obtain ⟨hreturn, -⟩ := permutationTo_back target source
    rw [← hfour] at hthere hback hreturn
    exact ⟨_, h.permuteAxes hthere, h.permuteAxes_back hthere hreturn hback⟩

/-- Twelve bytes on four axes. -/
def dozen : Tensor := ⟨[1, 2, 2, 3], .u8 [0, 1, 2, 3, 4, 5, 6, 7, 8, 9, 10, 11]⟩

/-- Moving the channels behind and then turning all axes by one exchanges the first two axes. -/
theorem dozen_composes :
    ofElements dozen.shape dozen.elements = .ok dozen ∧ (∀ d ∈ dozen.shape, 1 ≤ d) ∧
      [0, 2, 3, 1].Perm (List.range dozen.shape.length) ∧
      [3, 0, 1, 2].Perm (List.range dozen.shape.length) ∧
      (∃ once twice, dozen.permuteAxes [0, 2, 3, 1] = .ok once ∧
        once.permuteAxes [3, 0, 1, 2] = .ok twice ∧ dozen.permuteAxes [1, 0, 2, 3] = .ok twice) ∧
      (∃ once inverse, dozen.permuteAxes [0, 2, 3, 1] = .ok once ∧
        Shape.inversePermutation [0, 2, 3, 1] = .ok inverse ∧
        once.permuteAxes inverse = .ok dozen) ∧
      ∃ converted, dozen.convert .nchw .nhwc = .ok converted ∧
        converted.convert .nhwc .nchw = .ok dozen := by
  have hbuilt : ofElements dozen.shape dozen.elements = .ok dozen := rfl
  have hdims : ∀ d ∈ dozen.shape, 1 ≤ d := by decide
  have hfirst : [0, 2, 3, 1].Perm (List.range dozen.shape.length) := by decide
  have hsecond : [3, 0, 1, 2].Perm (List.range dozen.shape.length) := by decide
  have htakes : Shape.TakesFrom [3, 0, 1, 2] [0, 2, 3, 1] [1, 0, 2, 3] :=
    ((Shape.takesFrom_iff (by decide)).mpr rfl).2
  obtain ⟨⟨once, twice, honce, htwice, hcomposed⟩, -, hinverse, hconverts⟩ :=
    permuteAxes_composes hbuilt hdims hfirst hsecond
  exact ⟨hbuilt, hdims, hfirst, hsecond,
    ⟨once, twice, honce, htwice, hcomposed [1, 0, 2, 3] rfl htakes⟩, hinverse,
    hconverts rfl .nchw .nhwc⟩

end Tensor

end NetTrial
