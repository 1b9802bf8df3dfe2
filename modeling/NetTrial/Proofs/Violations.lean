import NetTrial.Proofs.FlatIndexes
import NetTrial.Proofs.Magnitudes
/-!
# What a comparison tells

A comparison under a tolerance tells the worst error of all elements, whether the tensors are found
close or not, and when they are not, the first element that is off. The worst error is the largest
of zero and all errors in the usual order of the numbers, so it decides whether the tensors are
close. The element that is off lies in the tensor, its coordinates are found, and they lead back to
it.
-/

namespace NetTrial

open Number

theorem Tensor.length_toDoubles (t : Tensor) : t.toDoubles.length = t.length := by
  rw [Tensor.toDoubles, Tensor.length]
  cases t.elements with
  | f32 values => exact List.length_map _
  | u8 values => exact List.length_map _

/-! ## The worst error -/

namespace Double

variable {x y z worst : Double} {errors : List Double}

theorem Plain.atMost_refl (h : x.Plain) : x.AtMost x := (h.atMost_iff h).mpr (Nat.le_refl _)

theorem AtMost.trans (hxy : x.AtMost y) (hyz : y.AtMost z) : x.AtMost z := by
  obtain ⟨a, b, ha, hb, hab⟩ := hxy
  obtain ⟨b', c, hb', hc, hbc⟩ := hyz
  rw [hb] at hb'
  exact ⟨a, c, ha, hc, hab.trans (Option.some.inj hb' ▸ hbc)⟩

/-- The largest of zero and some errors. -/
structure IsLargest (worst : Double) (errors : List Double) : Prop where
  /-- It is one of them. -/
  member : worst = zero ∨ worst ∈ errors
  /-- It is not below zero. -/
  zero : zero.AtMost worst
  /-- No error is larger. -/
  bound : ∀ error ∈ errors, error.AtMost worst

/-- The larger of two numbers. -/
theorem maxMagnitude_bounds (hx : x.Plain) (hy : y.Plain) :
    (x.maxMagnitude y = x ∨ x.maxMagnitude y = y) ∧ (x.maxMagnitude y).Plain ∧
      x.AtMost (x.maxMagnitude y) ∧ y.AtMost (x.maxMagnitude y) := by
  rw [maxMagnitude]
  by_cases hlt : x.magnitude < y.magnitude
  · rw [if_pos hlt]
    exact ⟨.inr rfl, hy, (hx.atMost_iff hy).mpr hlt.le, hy.atMost_refl⟩
  · rw [if_neg hlt]
    exact ⟨.inl rfl, hx, hx.atMost_refl, (hy.atMost_iff hx).mpr (Nat.le_of_not_lt hlt)⟩

/-- What the pass over the errors keeps is the largest number so far. -/
theorem foldl_maxMagnitude (hx : x.Plain) (herrors : ∀ error ∈ errors, error.Plain) :
    (errors.foldl maxMagnitude x = x ∨ errors.foldl maxMagnitude x ∈ errors) ∧
      x.AtMost (errors.foldl maxMagnitude x) ∧
      ∀ error ∈ errors, error.AtMost (errors.foldl maxMagnitude x) := by
  induction errors generalizing x with
  | nil => exact ⟨.inl rfl, hx.atMost_refl, fun _ hmem => (nomatch hmem)⟩
  | cons error errors ih =>
    obtain ⟨hone, hplain, hleft, hright⟩ :=
      maxMagnitude_bounds hx (herrors error List.mem_cons_self)
    obtain ⟨hmember, hfirst, hall⟩ :=
      ih hplain fun other hmem => herrors other (List.mem_cons_of_mem _ hmem)
    rw [List.foldl_cons]
    refine ⟨?_, hleft.trans hfirst, fun other hother => ?_⟩
    · rcases hmember with hkept | hlater
      · rw [hkept]
        rcases hone with heq | heq
        · exact .inl heq
        · refine .inr ?_
          rw [heq]
          exact List.mem_cons_self
      · exact .inr (List.mem_cons_of_mem _ hlater)
    · rcases List.mem_cons.mp hother with heq | hmem
      · exact heq ▸ hright.trans hfirst
      · exact hall other hmem

theorem isLargest_worstError (h : ∀ error ∈ errors, error.Plain) :
    (worstError errors).IsLargest errors :=
  have hfold := foldl_maxMagnitude plain_zero h
  ⟨hfold.1, hfold.2.1, hfold.2.2⟩

theorem IsLargest.plain (hworst : worst.IsLargest errors) (h : ∀ error ∈ errors, error.Plain) :
    worst.Plain := by
  rcases hworst.member with hzero | hmem
  · exact hzero ▸ plain_zero
  · exact h worst hmem

end Double

variable {case : String} {expected candidate : Tensor} {tolerance tolerance' error : Double}
  {errors : List Double}

theorem plain_of_mem_elementErrors {wanted found : List Double}
    (h : error ∈ elementErrors wanted found) : error.Plain := by
  rw [elementErrors, List.mem_iff_getElem] at h
  obtain ⟨i, hi, herror⟩ := h
  rw [← herror, List.getElem_zipWith]
  exact plain_elementError ..

/-- An error is outside a tolerance when the tolerance is below it. -/
theorem exceeds_iff (ht : tolerance.IsTolerance) (he : error.Plain) :
    exceeds tolerance error = true ↔ tolerance.Below error := by
  rw [exceeds, decide_eq_true_iff, ht.plain.below_iff he]

/-- No error is outside a tolerance when the worst is not. -/
theorem worst_atMost_iff (ht : tolerance.IsTolerance) (h : ∀ error ∈ errors, error.Plain)
    {worst : Double} (hworst : worst.IsLargest errors) :
    worst.AtMost tolerance ↔ errors.findIdx? (exceeds tolerance) = none := by
  have hplain := hworst.plain h
  rw [List.findIdx?_eq_none_iff]
  constructor
  · intro hle error hmem
    have herror := (((h error hmem).atMost_iff ht.plain).mp ((hworst.bound error hmem).trans hle))
    exact decide_eq_false (Nat.not_lt_of_le herror)
  · intro hall
    rw [hplain.atMost_iff ht.plain]
    rcases hworst.member with hzero | hmem
    · rw [hzero]
      exact Nat.zero_le _
    · exact Nat.le_of_not_lt (of_decide_eq_false (hall worst hmem))

/-! ## The answers -/

/-- The first element that is off, as a comparison tells it. -/
structure Violation.Tells (v : Violation) (expected candidate : Tensor) (tolerance : Double) :
    Prop where
  /-- The element lies in the tensor. -/
  inside : v.flatIndex < expected.length
  /-- It has a coordinate on each axis. -/
  rank : v.index.length = expected.shape.length
  /-- The coordinates lie below the dimensions. -/
  indexes : Shape.Indexes v.index expected.shape
  /-- They lead back to the element. -/
  ravels : ∃ strides, expected.shape.strides = .ok strides ∧
    Shape.ravel v.index strides = v.flatIndex
  /-- The expected element. -/
  wanted : expected.toDoubles[v.flatIndex]? = some v.expected
  /-- The candidate element. -/
  found : candidate.toDoubles[v.flatIndex]? = some v.actual
  /-- The error of the two. -/
  error : v.error = elementError v.expected v.actual
  /-- The error is outside the tolerance. -/
  off : tolerance.Below v.error
  /-- No error in front of it is. -/
  first : ∀ i < v.flatIndex, ∀ x y, expected.toDoubles[i]? = some x →
    candidate.toDoubles[i]? = some y → (elementError x y).AtMost tolerance

theorem compareTensors_refused (case : String) (expected candidate : Tensor)
    (h : ¬ tolerance.IsTolerance) : compareTensors case expected candidate tolerance =
      .error (.config (.tolerance case tolerance)) := by
  have hbad : (!tolerance.isFinite || tolerance.isBelowZero) = true := by
    by_contra hgood
    rw [Bool.not_eq_true, Bool.or_eq_false_iff, Bool.not_eq_false'] at hgood
    exact h hgood
  rw [compareTensors, if_pos hbad]

theorem compareTensors_shapes (case : String) (ht : tolerance.IsTolerance)
    (hshape : expected.shape ≠ candidate.shape) :
    compareTensors case expected candidate tolerance =
      .error (.shapeMismatch case expected.shape candidate.shape) := by
  have hgood : ¬ (!tolerance.isFinite || tolerance.isBelowZero) = true := by simp [ht.1, ht.2]
  rw [compareTensors, if_neg hgood, if_pos hshape]

/-- Tensors of one shape are close when no error is outside the tolerance. -/
theorem compareTensors_close (case : String) (ht : tolerance.IsTolerance)
    (hshape : expected.shape = candidate.shape)
    (hnone : (elementErrors expected.toDoubles candidate.toDoubles).findIdx? (exceeds tolerance) =
      none) : compareTensors case expected candidate tolerance =
        .ok ⟨case, tolerance, expected.length,
          worstError (elementErrors expected.toDoubles candidate.toDoubles)⟩ := by
  have hgood : ¬ (!tolerance.isFinite || tolerance.isBelowZero) = true := by simp [ht.1, ht.2]
  rw [compareTensors, if_neg hgood, if_neg (not_not_intro hshape)]
  simp only [hnone, Tensor.length_toDoubles]

/-- Tensors of one shape are not close when an error is outside the tolerance, and the first such
error is told. -/
theorem compareTensors_off (case : String) (ht : tolerance.IsTolerance)
    (hexpected : expected.shape.elementCount = .ok expected.length)
    (hcandidate : candidate.shape.elementCount = .ok candidate.length)
    (hshape : expected.shape = candidate.shape)
    (hsome : (elementErrors expected.toDoubles candidate.toDoubles).findIdx? (exceeds tolerance) ≠
      none) : ∃ v, compareTensors case expected candidate tolerance = .error (.tolerance v) ∧
        v.Tells expected candidate tolerance ∧ v.case = case ∧ v.tolerance = tolerance ∧
        v.worst = worstError (elementErrors expected.toDoubles candidate.toDoubles) := by
  have hgood : ¬ (!tolerance.isFinite || tolerance.isBelowZero) = true := by simp [ht.1, ht.2]
  have hlength : candidate.length = expected.length := by
    rw [hshape, hcandidate] at hexpected
    exact Except.ok.inj hexpected
  obtain ⟨flat, hfind⟩ := Option.ne_none_iff_exists'.mp hsome
  obtain ⟨hflat, hoff, hbefore⟩ := List.findIdx?_eq_some_iff_getElem.mp hfind
  rw [elementErrors, List.length_zipWith, Tensor.length_toDoubles, Tensor.length_toDoubles, hlength,
    Nat.min_self] at hflat
  have hwanted : flat < expected.toDoubles.length := expected.length_toDoubles.symm ▸ hflat
  have hfound : flat < candidate.toDoubles.length :=
    candidate.length_toDoubles.symm ▸ hlength.symm ▸ hflat
  have hunravel := Shape.unravel_eq hexpected hflat
  have hback := Shape.leadsBack_coordinates hexpected hflat
  have herror : (elementErrors expected.toDoubles candidate.toDoubles).getD flat .zero =
      elementError expected.toDoubles[flat] candidate.toDoubles[flat] := by
    rw [elementErrors, List.getD_eq_getElem?_getD, List.getElem?_zipWith,
      List.getElem?_eq_getElem hwanted, List.getElem?_eq_getElem hfound, Option.getD_some]
  rw [compareTensors, if_neg hgood, if_neg (not_not_intro hshape)]
  simp only [hfind]
  refine ⟨_, rfl, ⟨hflat, ?_, ?_, ⟨_, hback.strides, ?_⟩, ?_, ?_, ?_, ?_, ?_⟩, rfl, rfl, rfl⟩
  · rw [hunravel]
    exact hback.rank
  · rw [hunravel]
    exact hback.indexes
  · rw [hunravel]
    exact hback.ravels
  · simp only [List.getD_eq_getElem?_getD, List.getElem?_eq_getElem hwanted, Option.getD_some]
  · simp only [List.getD_eq_getElem?_getD, List.getElem?_eq_getElem hfound, Option.getD_some]
  · rw [herror]
    simp only [List.getD_eq_getElem?_getD, List.getElem?_eq_getElem hwanted,
      List.getElem?_eq_getElem hfound, Option.getD_some]
  · rw [herror, ← exceeds_iff ht (plain_elementError ..)]
    simpa only [elementErrors, List.getElem_zipWith] using hoff
  · intro i hi x y hx hy
    have hnot := hbefore i hi
    have hpair : (elementErrors expected.toDoubles candidate.toDoubles)[i]? =
        some (elementError x y) := by
      rw [elementErrors, List.getElem?_zipWith, hx, hy]
    obtain ⟨hbound, hget⟩ := List.getElem?_eq_some_iff.mp hpair
    rw [hget] at hnot
    rw [(plain_elementError x y).atMost_iff ht.plain]
    exact Nat.le_of_not_lt fun hlt => hnot (decide_eq_true hlt)

/-- Under a tolerance tensors are refused for their shapes or for an element. -/
theorem compareTensors_code (ht : tolerance.IsTolerance) {failure : Failure}
    (h : compareTensors case expected candidate tolerance = .error failure) :
    failure.reasonCode = if expected.shape = candidate.shape then "harness_tolerance_exceeded"
      else "harness_shape_mismatch" := by
  by_cases hshape : expected.shape = candidate.shape
  · rw [if_pos hshape]
    rcases compareTensors_of_shape case ht hshape with ⟨-, c, hc⟩ | ⟨-, v, hv⟩
    · rw [hc] at h
      cases h
    · rw [hv] at h
      cases h
      rfl
  · rw [if_neg hshape]
    rw [compareTensors_shapes case ht hshape] at h
    cases h
    rfl

/-- A tensor is close to itself. -/
theorem compareTensors_self (case : String) (t : Tensor) (ht : tolerance.IsTolerance) :
    compareTensors case t t tolerance = .ok ⟨case, tolerance, t.length, .zero⟩ := by
  have hsame : ∀ x : Double, elementError x x = .zero := by
    intro x
    have hequal : (x.equals x || (x.isNaN && x.isNaN)) = true := by
      cases hnan : x.isNaN with
      | false => rw [Double.equals_self hnan, Bool.true_or]
      | true => rw [Bool.and_self, Bool.or_true]
    rw [elementError, if_pos hequal]
  have hzeros : ∀ error ∈ elementErrors t.toDoubles t.toDoubles, error = .zero := by
    intro error hmem
    rw [elementErrors, List.mem_iff_getElem] at hmem
    obtain ⟨i, hi, herror⟩ := hmem
    rw [← herror, List.getElem_zipWith]
    exact hsame _
  have hplain : ∀ error ∈ elementErrors t.toDoubles t.toDoubles, error.Plain :=
    fun error => plain_of_mem_elementErrors
  have hworst := Double.isLargest_worstError hplain
  have hzero : worstError (elementErrors t.toDoubles t.toDoubles) = .zero := by
    rcases hworst.member with heq | hmem
    · exact heq
    · exact hzeros _ hmem
  have hnone : (elementErrors t.toDoubles t.toDoubles).findIdx? (exceeds tolerance) = none := by
    rw [← worst_atMost_iff ht hplain hworst, hzero,
      Double.plain_zero.atMost_iff ht.plain]
    exact Nat.zero_le _
  rw [compareTensors_close case ht rfl hnone, hzero]

/-- A comparison of two tensors with as many elements as their shapes ask for refuses what is no
bound, then other shapes. Else it tells the largest error of all. When this is at most the tolerance
the tensors are close, and when it is not, the first element that is off is told with its
coordinates. So a larger tolerance accepts no less, and every tolerance accepts a tensor against
itself. -/
theorem compareTensors_tells (case : String) (tolerance : Double)
    (hexpected : expected.shape.elementCount = .ok expected.length)
    (hcandidate : candidate.shape.elementCount = .ok candidate.length) :
    ((∃ failure, compareTensors case expected candidate tolerance = .error failure ∧
        failure.reasonCode = "harness_config_invalid") ↔ ¬ tolerance.IsBound) ∧
    (tolerance.IsBound →
      ((∃ failure, compareTensors case expected candidate tolerance = .error failure ∧
        failure.reasonCode = "harness_shape_mismatch") ↔ expected.shape ≠ candidate.shape)) ∧
    (tolerance.IsBound → expected.shape = candidate.shape →
      ∃ worst : Double, worst.IsLargest (elementErrors expected.toDoubles candidate.toDoubles) ∧
        (compareTensors case expected candidate tolerance =
          .ok ⟨case, tolerance, expected.length, worst⟩ ↔ worst.AtMost tolerance) ∧
        (¬ worst.AtMost tolerance →
          ∃ v, compareTensors case expected candidate tolerance = .error (.tolerance v) ∧
            v.Tells expected candidate tolerance ∧ v.case = case ∧ v.tolerance = tolerance ∧
            v.worst = worst)) ∧
    (∀ larger : Double, larger.IsBound → tolerance.AtMost larger →
      (∃ comparison, compareTensors case expected candidate tolerance = .ok comparison) →
      ∃ comparison, compareTensors case expected candidate larger = .ok comparison) ∧
    (∀ any : Double, any.IsBound → compareTensors case expected expected any =
      .ok ⟨case, any, expected.length, .zero⟩) := by
  have hplain : ∀ error ∈ elementErrors expected.toDoubles candidate.toDoubles, error.Plain :=
    fun error => plain_of_mem_elementErrors
  have hworst := Double.isLargest_worstError hplain
  refine ⟨?_, fun ht => ?_, fun ht hshape => ?_, fun larger hlarger hle hok => ?_,
    fun any hany => ?_⟩
  · rw [← Double.isTolerance_iff]
    refine ⟨fun ⟨failure, herror, hcode⟩ ht => ?_, fun ht => ?_⟩
    · rw [compareTensors_code ht herror] at hcode
      by_cases hshape : expected.shape = candidate.shape <;> simp [hshape] at hcode
    · exact ⟨_, compareTensors_refused case expected candidate ht, rfl⟩
  · have ht := Double.isTolerance_iff.mpr ht
    refine ⟨fun ⟨failure, herror, hcode⟩ hshape => ?_, fun hshape => ?_⟩
    · rw [compareTensors_code ht herror, if_pos hshape] at hcode
      exact absurd hcode (by decide)
    · exact ⟨_, compareTensors_shapes case ht hshape, rfl⟩
  · have ht := Double.isTolerance_iff.mpr ht
    have hdecides := worst_atMost_iff ht hplain hworst
    refine ⟨_, hworst, ⟨fun hok => ?_, fun hle => ?_⟩, fun hgt => ?_⟩
    · by_contra hgt
      obtain ⟨v, hv, -⟩ :=
        compareTensors_off case ht hexpected hcandidate hshape (hdecides.not.mp hgt)
      rw [hv] at hok
      cases hok
    · exact compareTensors_close case ht hshape (hdecides.mp hle)
    · exact compareTensors_off case ht hexpected hcandidate hshape (hdecides.not.mp hgt)
  · obtain ⟨ht, hnear⟩ := compareTensors_ok_iff.mp hok
    have hlarger := Double.isTolerance_iff.mpr hlarger
    have hnone := (worst_atMost_iff ht hplain hworst).mpr
      (List.findIdx?_eq_none_iff.mpr hnear.errors)
    exact ⟨_, compareTensors_close case hlarger hnear.shape
      ((worst_atMost_iff hlarger hplain hworst).mp (hnone.trans hle))⟩
  · exact compareTensors_self case expected (Double.isTolerance_iff.mpr hany)

/-- Three bytes in a row, and in a column. -/
def byteRow : Tensor := ⟨[1, 3], .u8 [0, 7, 255]⟩

/-- The same bytes in a column. -/
def byteColumn : Tensor := ⟨[3, 1], .u8 [0, 7, 255]⟩

/-- Under zero the row is not comparable with the column, and it is close to itself. -/
theorem compareTensors_bytes :
    (∃ failure, compareTensors "test" byteRow byteColumn .zero = .error failure ∧
      failure.reasonCode = "harness_shape_mismatch") ∧
    compareTensors "test" byteRow byteRow .zero = .ok ⟨"test", .zero, 3, .zero⟩ := by
  have hbound : Double.zero.IsBound := Double.isTolerance_iff.mp Double.isTolerance_zero
  have hrow : byteRow.shape.elementCount = .ok byteRow.length := rfl
  have hcolumn : byteColumn.shape.elementCount = .ok byteColumn.length := rfl
  obtain ⟨-, hshapes, -, -, hself⟩ := compareTensors_tells "test" .zero hrow hcolumn
  exact ⟨(hshapes hbound).mpr (by decide), hself .zero hbound⟩

end NetTrial
