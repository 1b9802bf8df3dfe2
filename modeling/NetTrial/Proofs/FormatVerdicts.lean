import NetTrial.Proofs.StockedAreas
import NetTrial.Proofs.TensorFormats
/-!
# Verdicts in both formats

In an npy area the candidate brings its own shape; in a raw one it is a row of words that takes
the expected shape. Either way the comparison of an exhibited candidate is that of the tensors
themselves, and a candidate of another length is found to have another shape.
-/

namespace NetTrial

open NetTrial.Path Text NetTrial.Action

namespace Area

variable {a : Area} {fs : Files} {j : Journal} {case : String} {expected candidate : Tensor}

/-- A case may be staged, and its files and the manifest have paths that can be spoken of. -/
structure Takes (a : Area) (case : String) : Prop where
  /-- The case may be staged. -/
  case_ok : checkCase case = .ok ()
  /-- The manifest can be spoken of. -/
  manifest : Files.admits a.root manifestName = .ok ()
  /-- The file of what is expected can be spoken of. -/
  expected : Files.admits a.root (a.tensorFile case .expected) = .ok ()
  /-- The file of a candidate can be spoken of. -/
  candidate : Files.admits a.root (a.tensorFile case .candidate) = .ok ()

/-- Stages what is expected of a case, puts the file of a candidate in its place as a tool does,
and records it. -/
def exhibit (a : Area) (j : Journal) (case : String) (expected candidate : Tensor) :
    Action Files Unit := do
  let _ ← a.saveTensor j case .expected expected
  let bytes ← settle (a.fileBytes case .candidate candidate)
  let path := a.tensorPath case .candidate
  edit path (·.write path bytes)
  let _ ← a.recordExternal case .candidate .f32

/-! ## Exhibiting -/

/-- An empty directory takes what is expected of a case and a candidate that can be told of. -/
theorem exhibit_run (hj : j.path = none) (hv : a.Vacant fs) (ht : a.Takes case)
    (he : expected.Representable) {staged bytes : Bytes}
    (hs : a.fileBytes case .expected expected = .ok staged)
    (hb : a.fileBytes case .candidate candidate = .ok bytes) {told : Option Shape × ElementType}
    (hd : a.describe (a.tensorPath case .candidate) bytes .f32 = .ok told) :
    ∃ fs', (a.exhibit j case expected candidate).run fs = (.ok (), fs') ∧
      a.Expects fs' case expected ∧ a.Collected fs' case told bytes := by
  obtain ⟨fs₁, hstage, hstaged⟩ :=
    (hv.stocked ht.manifest).stageTensor ht.case_ok hs ht.expected he.dims
  obtain ⟨fs₂, hwrite, hwritten⟩ :=
    hstaged.write (offers_tensorFile ht.case_ok ht.candidate) bytes
  obtain ⟨fs₃, hrecord, hrecorded⟩ :=
    hwritten.recordExternal ht.case_ok ht.candidate (Function.update_self ..) hd
  have hkept := (staged_record hs .empty fun _ => none).collect bytes told
  refine ⟨fs₃, ?_, hrecorded.expects ht.case_ok ht.expected hkept,
    hrecorded.collected ht.case_ok ht.candidate hd (Manifest.tensor?_record _ _)
      (Function.update_self ..)⟩
  rw [exhibit, saveTensor_silent hj, run_bind_of_ok hstage, run_settle_bind, hb]
  have hedit : (edit (a.tensorPath case .candidate)
      (·.write (a.tensorPath case .candidate) bytes)).run fs₁ = (.ok (), fs₂) := by
    rw [run_edit, tensorPath, hwrite]
  change (edit (a.tensorPath case .candidate) _ >>= fun _ => _).run fs₁ = _
  rw [run_bind_of_ok hedit, run_bind_of_ok hrecord]
  rfl

/-! ## A pair that was exhibited -/

/-- The candidate of an area as a comparison takes it: as its file was decoded when the shape was
told, and otherwise under the expected shape. -/
def taken (case : String) (expected : Tensor) (told : Option Shape × ElementType)
    (found : Tensor) : Except Failure Tensor :=
  match told.1 with
  | some _ => .ok found
  | none => adoptShape case expected found

/-- What is expected is compared with a collected candidate as it is taken. -/
theorem compareStaged_collected {told : Option Shape × ElementType} {bytes : Bytes}
    (hexpects : a.Expects fs case expected) (he : expected.Representable)
    (hcollected : a.Collected fs case told bytes) {found : Tensor}
    (hd : decodeEntry (a.externalEntry case .candidate told bytes) bytes = .ok found)
    (tolerance : Double) :
    (a.compareStaged case tolerance).run fs =
      ((taken case expected told found).bind fun c => compareTensors case expected c tolerance,
        fs) := by
  obtain ⟨m, hm, hentry⟩ := hcollected.listed
  have hrecord : (a.tensorEntry case .candidate).run fs =
      (.ok (a.externalEntry case .candidate told bytes), fs) := by
    rw [tensorEntry_run hm, hentry]
  have hload : (a.loadTensor case .candidate).run fs = (.ok found, fs) :=
    loadTensor_eq_ok.mpr ⟨rfl, m, _, bytes, hm, hentry, hcollected.file, hd⟩
  have hpair : (a.loadPair case).run fs =
      ((taken case expected told found).map fun c =>
        ⟨expected, c, Digest.sha256Hex bytes⟩, fs) := by
    rw [loadPair, run_bind_of_ok (hexpects.load he), run_bind_of_ok hrecord, run_bind_of_ok hload]
    obtain ⟨shape, kind⟩ := told
    cases shape with
    | some shape => rfl
    | none =>
      change (settle (adoptShape case expected found) >>= _).run fs = _
      rw [run_settle_bind, taken]
      cases adoptShape case expected found <;> rfl
  rw [compareStaged, run_bind, hpair]
  cases taken case expected told found with
  | error e => rfl
  | ok c => exact run_settle _ fs

end Area

/-! ## What a format presents -/

/-- The candidate that a comparison takes from a file of a format: an npy file tells its shape,
and a raw one is a row that takes the expected shape. -/
def DatasetFormat.presents (format : DatasetFormat) (case : String)
    (expected candidate : Tensor) : Except Failure Tensor :=
  match format with
  | .raw => adoptShape case expected ⟨[candidate.length], candidate.elements⟩
  | .npy => .ok candidate

namespace DatasetFormat

variable {case : String} {expected candidate : Tensor}

/-- Tensors of one shape have as many elements. -/
theorem length_of_shape (he : expected.Representable) (hc : candidate.Representable)
    (hshape : expected.shape = candidate.shape) : candidate.length = expected.length := by
  have hcount := hc.count
  rw [← hshape, he.count] at hcount
  exact (Except.ok.inj hcount).symm

/-- A candidate of the expected shape is presented as it is. -/
theorem presents_of_shape (format : DatasetFormat) (he : expected.Representable)
    (hc : candidate.Representable) (hshape : expected.shape = candidate.shape) :
    format.presents case expected candidate = .ok candidate := by
  cases format with
  | npy => rfl
  | raw =>
    have hlength : candidate.length = expected.length := length_of_shape he hc hshape
    exact (adoptShape_eq_ok he).mpr ⟨hlength, by rw [hshape]⟩

/-- A candidate of another length is of another shape under every tolerance. -/
theorem presents_of_length (format : DatasetFormat) (case : String) (he : expected.Representable)
    (hc : candidate.Representable) (hlength : candidate.length ≠ expected.length)
    {tolerance : Double} (ht : tolerance.IsTolerance) :
    ∃ shape, (format.presents case expected candidate).bind
        (fun c => compareTensors case expected c tolerance) =
      .error (.shapeMismatch case expected.shape shape) := by
  cases format with
  | raw =>
    refine ⟨[candidate.length], ?_⟩
    have hadopt : adoptShape case expected ⟨[candidate.length], candidate.elements⟩ =
        .error (.shapeMismatch case expected.shape [candidate.length]) := if_pos hlength
    rw [presents, hadopt]
    rfl
  | npy =>
    have hshape : expected.shape ≠ candidate.shape :=
      fun hshape => hlength (length_of_shape he hc hshape)
    have htolerance : ¬ (!tolerance.isFinite || tolerance.isBelowZero) = true := by
      simp [ht.1, ht.2]
    refine ⟨candidate.shape, ?_⟩
    rw [presents, Except.bind, compareTensors, if_neg htolerance, if_pos hshape]

end DatasetFormat

namespace Area

variable {a : Area} {fs : Files} {j : Journal} {case : String} {expected candidate : Tensor}

theorem elements_of_f32 (h : candidate.elementType = .f32) :
    Elements.f32 (Single.listOfBytes candidate.elements.toBytes) = candidate.elements := by
  have hback := Elements.ofBytes_toBytes candidate.elements
  have hkind : candidate.elements.elementType = .f32 := h
  rw [hkind] at hback
  exact hback

/-- The file of a candidate is recorded, and what a comparison takes from it is what its format
presents. -/
theorem candidate_presented (a : Area) (case : String) (expected : Tensor)
    (hc : candidate.Representable) (hkind : candidate.elementType = .f32)
    (hrank : candidate.shape.length ≤ Npy.largestRank) :
    ∃ bytes told found, a.fileBytes case .candidate candidate = .ok bytes ∧
      a.describe (a.tensorPath case .candidate) bytes .f32 = .ok told ∧
      decodeEntry (a.externalEntry case .candidate told bytes) bytes = .ok found ∧
      taken case expected told found = a.format.presents case expected candidate := by
  cases hformat : a.format with
  | raw =>
    have hlength : candidate.elements.toBytes.length = candidate.length * 4 := by
      have hitem : candidate.elements.elementType = .f32 := hkind
      rw [Elements.length_toBytes, hitem]
      rfl
    have hflat := decodeFlat_of_words (by omega) hc.bytes
    rw [elements_of_f32 hkind, hlength, Nat.mul_div_cancel _ (by decide)] at hflat
    refine ⟨candidate.elements.toBytes, (none, .f32), ⟨[candidate.length], candidate.elements⟩,
      ?_, ?_, ?_, rfl⟩
    · rw [fileBytes_eq_ok, hformat]
      rfl
    · rw [describe, hformat]
    · rw [decodeEntry_external_raw hformat, hflat]
      rfl
  | npy =>
    obtain ⟨file, hfile⟩ := (Tensor.toFile_npy_iff hc).mpr hrank
    have hread := Tensor.ofFile_npy hc hfile [] .f32
    refine ⟨file, (some candidate.shape, candidate.elementType), candidate, ?_, ?_, ?_, rfl⟩
    · rw [fileBytes_eq_ok, hformat, hfile]
    · rw [describe, hformat]
      simp only [hread]
    · rw [decodeEntry_external_npy hformat, hread]
      rfl

/-- In an empty directory a candidate can be exhibited, and is then compared as its format
presents it. -/
theorem closeTo_exhibited (hj : j.path = none) (hv : a.Vacant fs) (ht : a.Takes case)
    (he : expected.Representable) (hexpected : expected.shape.length ≤ Npy.largestRank)
    (hc : candidate.Representable) (hkind : candidate.elementType = .f32)
    (hcandidate : candidate.shape.length ≤ Npy.largestRank) :
    ∃ fs', (a.exhibit j case expected candidate).run fs = (.ok (), fs') ∧
      ∀ tolerance, (a.closeTo j case tolerance).run fs' =
        ((a.format.presents case expected candidate).bind
          fun c => compareTensors case expected c tolerance, fs') := by
  obtain ⟨staged, hs⟩ : ∃ staged, a.fileBytes case .expected expected = .ok staged := by
    simp only [fileBytes_eq_ok]
    cases a.format with
    | raw => exact ⟨_, rfl⟩
    | npy => exact (Tensor.toFile_npy_iff he).mpr hexpected
  obtain ⟨bytes, told, found, hb, hd, hfound, htaken⟩ :=
    candidate_presented a case expected hc hkind hcandidate
  obtain ⟨fs', hrun, hexpects, hcollected⟩ := exhibit_run hj hv ht he hs hb hd
  refine ⟨fs', hrun, fun tolerance => ?_⟩
  rw [closeTo_silent hj, compareStaged_collected hexpects he hcollected hfound, htaken]

/-- What is expected and a candidate of words reach the same verdict in any two areas, whether
raw or npy: the verdict on the tensors themselves when the shapes agree; when the lengths differ
both find another shape under every tolerance. -/
theorem verdicts_agree {b : Area} {gs : Files} (hj : j.path = none) (hva : a.Vacant fs)
    (hvb : b.Vacant gs) (hta : a.Takes case) (htb : b.Takes case)
    (he : expected.Representable) (hexpected : expected.shape.length ≤ 32)
    (hc : candidate.Representable) (hkind : candidate.elementType = .f32)
    (hcandidate : candidate.shape.length ≤ 32) :
    ∃ fs' gs', (a.exhibit j case expected candidate).run fs = (.ok (), fs') ∧
      (b.exhibit j case expected candidate).run gs = (.ok (), gs') ∧
      (expected.shape = candidate.shape → ∀ tolerance,
        (a.closeTo j case tolerance).run fs' =
          (compareTensors case expected candidate tolerance, fs') ∧
        (b.closeTo j case tolerance).run gs' =
          (compareTensors case expected candidate tolerance, gs')) ∧
      (candidate.length ≠ expected.length → ∀ tolerance : Double, tolerance.IsTolerance →
        ∃ e e', (a.closeTo j case tolerance).run fs' = (.error e, fs') ∧
          (b.closeTo j case tolerance).run gs' = (.error e', gs') ∧
          e.reasonCode = "harness_shape_mismatch" ∧ e'.reasonCode = "harness_shape_mismatch") := by
  obtain ⟨fs', hrun, hclose⟩ := closeTo_exhibited hj hva hta he hexpected hc hkind hcandidate
  obtain ⟨gs', hrun', hclose'⟩ := closeTo_exhibited hj hvb htb he hexpected hc hkind hcandidate
  refine ⟨fs', gs', hrun, hrun', fun hshape tolerance => ?_, fun hlength tolerance ht => ?_⟩
  · rw [hclose, hclose', DatasetFormat.presents_of_shape _ he hc hshape,
      DatasetFormat.presents_of_shape _ he hc hshape]
    exact ⟨rfl, rfl⟩
  · obtain ⟨shape, hr⟩ := a.format.presents_of_length case he hc hlength ht
    obtain ⟨shape', hr'⟩ := b.format.presents_of_length case he hc hlength ht
    rw [hclose, hclose', hr, hr']
    exact ⟨_, _, rfl, rfl, rfl, rfl⟩

/-- The area that small runs of a format are made in. -/
def smallArea (format : DatasetFormat) : Area := ⟨"w", format⟩

/-- That area after a first clearing. -/
def cleared (format : DatasetFormat) : Files := (((smallArea format).clear {}).run .empty).2

theorem vacant_cleared (format : DatasetFormat) : (smallArea format).Vacant (cleared format) := by
  have hclear : ((smallArea format).clear {}).run .empty = (.ok (), cleared format) := by
    cases format <;> rfl
  rw [clear_silent rfl] at hclear
  exact vacant_of_empty (show ".." ∉ pieces "w" by decide) hclear

theorem takes_small (format : DatasetFormat) : (smallArea format).Takes "case" where
  case_ok := by rfl
  manifest := (by rfl : Files.admits "w" manifestName = .ok ())
  expected := by cases format <;> rfl
  candidate := by cases format <;> rfl

/-- Two bytes that are expected and two words are compared as they are in a raw area and in an
npy area, and three words are of another shape in both. -/
theorem verdicts_agree_bytes :
    (∃ fs' gs',
      ((smallArea .raw).exhibit {} "case" ⟨[2], .u8 [0, 6]⟩ ⟨[2], .f32 [.zero, .six]⟩).run
        (cleared .raw) = (.ok (), fs') ∧
      ((smallArea .npy).exhibit {} "case" ⟨[2], .u8 [0, 6]⟩ ⟨[2], .f32 [.zero, .six]⟩).run
        (cleared .npy) = (.ok (), gs') ∧
      ∀ tolerance,
        ((smallArea .raw).closeTo {} "case" tolerance).run fs' =
          (compareTensors "case" ⟨[2], .u8 [0, 6]⟩ ⟨[2], .f32 [.zero, .six]⟩ tolerance, fs') ∧
        ((smallArea .npy).closeTo {} "case" tolerance).run gs' =
          (compareTensors "case" ⟨[2], .u8 [0, 6]⟩ ⟨[2], .f32 [.zero, .six]⟩ tolerance, gs')) ∧
    ∃ fs' e gs' e',
      ((smallArea .raw).closeTo {} "case" .zero).run fs' = (.error e, fs') ∧
      ((smallArea .npy).closeTo {} "case" .zero).run gs' = (.error e', gs') ∧
      e.reasonCode = "harness_shape_mismatch" ∧ e'.reasonCode = "harness_shape_mismatch" := by
  have he : Tensor.Representable ⟨[2], .u8 [0, 6]⟩ := ⟨rfl, by decide, by decide⟩
  have htwo : Tensor.Representable ⟨[2], .f32 [.zero, .six]⟩ := ⟨rfl, by decide, by decide⟩
  have hthree : Tensor.Representable ⟨[3], .f32 [.zero, .six, .zero]⟩ :=
    ⟨rfl, by decide, by decide⟩
  have hj : ({} : Journal).path = none := rfl
  constructor
  · obtain ⟨fs', gs', hraw, hnpy, hsame, -⟩ := verdicts_agree hj (vacant_cleared .raw)
      (vacant_cleared .npy) (takes_small .raw) (takes_small .npy) he (by decide) htwo rfl
      (by decide)
    exact ⟨fs', gs', hraw, hnpy, hsame rfl⟩
  · obtain ⟨fs', gs', -, -, -, hdiffer⟩ := verdicts_agree hj (vacant_cleared .raw)
      (vacant_cleared .npy) (takes_small .raw) (takes_small .npy) he (by decide) hthree rfl
      (by decide)
    obtain ⟨e, e', hraw, hnpy, hcode, hcode'⟩ :=
      hdiffer (by decide) .zero Double.isTolerance_zero
    exact ⟨fs', e, gs', e', hraw, hnpy, hcode, hcode'⟩

end Area

end NetTrial
