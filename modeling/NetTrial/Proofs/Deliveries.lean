import NetTrial.Proofs.Comparisons
import NetTrial.Proofs.Frames
import NetTrial.Proofs.References
/-!
# Pairs that were delivered

A comparison finds the expected tensor that was staged, and the candidate as a tool delivered
it: raw bytes make one exactly when they are the words of as many elements as are expected, and
an npy file tells its shape itself.
-/

namespace NetTrial

open NetTrial.Path Text NetTrial.Action

/-- The bytes of a file are a candidate for what is expected. -/
def DatasetFormat.Delivers (format : DatasetFormat) (expected : Tensor) (bytes : Bytes)
    (candidate : Tensor) : Prop :=
  match format with
  | .raw => bytes.length = 4 * expected.length ∧
      candidate = ⟨expected.shape, .f32 (Single.listOfBytes bytes)⟩
  | .npy => Tensor.ofFile bytes .npy [] .f32 = .ok candidate ∧ candidate.shape = expected.shape

/-! ## Raw candidates -/

theorem Single.length_listOfBytes (bytes : Bytes) :
    (Single.listOfBytes bytes).length = bytes.length / 4 := by
  induction bytes using Single.listOfBytes.induct with
  | case1 a b c d rest ih =>
    rw [Single.listOfBytes, List.length_cons, ih]
    simp only [List.length_cons]
    omega
  | case2 bytes hshort =>
    have hlt : bytes.length < 4 := by
      rcases bytes with _ | ⟨a, _ | ⟨b, _ | ⟨c, _ | ⟨d, rest⟩⟩⟩⟩
      · simp
      · simp
      · simp
      · simp
      · exact absurd rfl (hshort a b c d rest)
    rw [Single.listOfBytes.eq_2 bytes hshort, List.length_nil, Nat.div_eq_of_lt hlt]

theorem checkPayload_gives (shape : Shape) (length : Nat) (kind : ElementType) :
    Gives (checkPayload shape length kind) fun _ => length < wordLimit := by
  rw [checkPayload]
  refine gives_bind fun count => ?_
  cases hmul : checkedMul count kind.itemSize with
  | none => exact gives_error
  | some expected =>
    obtain ⟨he, hlt⟩ := checkedMul_eq_some_iff.mp hmul
    by_cases hl : length = expected
    · simp only [if_pos hl]
      exact gives_ok (by rw [hl, he]; exact hlt)
    · simp only [if_neg hl]
      exact gives_error

theorem length_ofBytes {kind : ElementType} (bytes : Bytes) :
    (Elements.ofBytes kind bytes).length = bytes.length / kind.itemSize := by
  cases kind with
  | f32 => exact Single.length_listOfBytes bytes
  | u8 => exact (Nat.div_one bytes.length).symm

/-- Whole elements are decoded as one row. -/
theorem decodeFlat_of_whole {bytes : Bytes} {kind : ElementType}
    (hwhole : bytes.length % kind.itemSize = 0) (hlt : bytes.length < wordLimit) :
    RawFile.decodeFlat bytes kind =
      .ok ⟨[bytes.length / kind.itemSize], .ofBytes kind bytes⟩ := by
  have hlength : bytes.length = bytes.length / kind.itemSize * kind.itemSize :=
    (Nat.div_mul_cancel (Nat.dvd_of_mod_eq_zero hwhole)).symm
  have hle : bytes.length / kind.itemSize ≤ bytes.length := Nat.div_le_self _ _
  have hcount : Shape.elementCount [bytes.length / kind.itemSize] =
      .ok (bytes.length / kind.itemSize) := by
    have hproduct : shapeProduct 1 (bytes.length / kind.itemSize) =
        .ok (bytes.length / kind.itemSize) :=
      Shape.shapeProduct_eq_ok.mpr ⟨(Nat.one_mul _).symm, by omega⟩
    rw [Shape.elementCount, Shape.countFrom, hproduct]
    rfl
  have htensor : Tensor.ofPayload [bytes.length / kind.itemSize] kind bytes =
      .ok ⟨[bytes.length / kind.itemSize], .ofBytes kind bytes⟩ := by
    rw [Tensor.ofPayload, Tensor.ofElements, hcount]
    simp only [bind, Except.bind, length_ofBytes, if_true]
    rfl
  rw [RawFile.decodeFlat]
  simp only [hwhole, if_true]
  rw [RawFile.decode, checkPayload_of_count hcount hlength hlt]
  exact htensor

/-- A file without shape is one row of elements when it is whole. -/
theorem decodeFlat_eq_ok_iff {bytes : Bytes} {kind : ElementType} {t : Tensor} :
    RawFile.decodeFlat bytes kind = .ok t ↔
      bytes.length % kind.itemSize = 0 ∧ bytes.length < wordLimit ∧
        t = ⟨[bytes.length / kind.itemSize], .ofBytes kind bytes⟩ := by
  constructor
  · intro h
    by_cases hwhole : bytes.length % kind.itemSize = 0
    · have hlt : bytes.length < wordLimit := by
        rw [RawFile.decodeFlat] at h
        simp only [hwhole, if_true] at h
        rw [RawFile.decode] at h
        obtain ⟨count, hp, -⟩ := bind_eq_ok_iff.mp h
        exact (checkPayload_gives _ _ _).of_ok hp
      rw [decodeFlat_of_whole hwhole hlt] at h
      cases h
      exact ⟨hwhole, hlt, rfl⟩
    · rw [RawFile.decodeFlat] at h
      simp only [hwhole, if_false] at h
      cases h
  · rintro ⟨hwhole, hlt, rfl⟩
    exact decodeFlat_of_whole hwhole hlt

/-- Whole words are decoded as one row. -/
theorem decodeFlat_of_words {bytes : Bytes} (hwhole : bytes.length % 4 = 0)
    (hlt : bytes.length < wordLimit) :
    RawFile.decodeFlat bytes .f32 =
      .ok ⟨[bytes.length / 4], .f32 (Single.listOfBytes bytes)⟩ :=
  decodeFlat_of_whole hwhole hlt

theorem decodeFlat_eq_ok {bytes : Bytes} {t : Tensor} : RawFile.decodeFlat bytes .f32 = .ok t ↔
    bytes.length % 4 = 0 ∧ bytes.length < wordLimit ∧
      t = ⟨[bytes.length / 4], .f32 (Single.listOfBytes bytes)⟩ :=
  decodeFlat_eq_ok_iff

/-- A candidate without shape is taken under the expected one when it has as many elements. -/
theorem adoptShape_eq_ok {case : String} {expected found candidate : Tensor}
    (he : expected.Representable) : adoptShape case expected found = .ok candidate ↔
      found.length = expected.length ∧ candidate = ⟨expected.shape, found.elements⟩ := by
  rw [adoptShape]
  by_cases hl : found.length = expected.length
  · have hreshaped : found.reshaped expected.shape = .ok ⟨expected.shape, found.elements⟩ := by
      rw [Tensor.reshaped, Tensor.ofElements, he.count]
      exact if_pos hl
    rw [if_neg (not_not_intro hl), hreshaped]
    constructor
    · intro h
      cases h
      exact ⟨hl, rfl⟩
    · rintro ⟨-, rfl⟩
      rfl
  · rw [if_pos hl]
    refine ⟨fun h => ?_, fun h => absurd h.1 hl⟩
    cases h

namespace Area

variable {a : Area} {fs fs' : Files} {case : String} {expected : Tensor}

/-- What is expected of a case is staged. -/
structure Expects (a : Area) (fs : Files) (case : String) (expected : Tensor) : Prop where
  /-- The case may be staged. -/
  case_ok : checkCase case = .ok ()
  /-- The area stands. -/
  stands : fs.Stands a.root
  /-- The file can be spoken of. -/
  spoken : Files.admits a.root (a.tensorFile case .expected) = .ok ()
  /-- It is recorded and there. -/
  staged : ∃ m bytes, a.Lists fs m ∧
    m.tensor? case .expected = some (a.entryOf case .expected expected bytes) ∧
    a.fileBytes case .expected expected = .ok bytes ∧
    fs.get? (location (a.tensorPath case .expected)) = some (.file bytes)

/-- What is expected is loaded as it was staged. -/
theorem Expects.load (h : a.Expects fs case expected) (he : expected.Representable) :
    (a.loadTensor case .expected).run fs = (.ok expected, fs) := by
  obtain ⟨m, bytes, hm, hentry, hb, hf⟩ := h.staged
  refine loadTensor_eq_ok.mpr ⟨rfl, m, _, bytes, hm, hentry, ?_, decodeEntry_entryOf he hb⟩
  have hn := a.isName_tensorFile (checkCase_ok h.case_ok).1 .expected
  rw [tensorPath, location_join a.root hn] at hf
  exact (Files.read_join_eq_ok hn).mpr ⟨h.stands, h.spoken, hf⟩

/-- What is expected stays staged when its file and the manifest are not written. -/
theorem Expects.of_spares {spots : Location → Prop} (h : a.Expects fs case expected)
    (hs : fs.Spares spots fs') (hm : ¬ spots a.manifestSpot)
    (hf : ¬ spots (location (a.tensorPath case .expected))) : a.Expects fs' case expected := by
  obtain ⟨m, bytes, hlist, hentry, hb, hfile⟩ := h.staged
  have hlist' := hlist.of_spares hentry hs hm
  exact ⟨h.case_ok, hs.stands h.stands, h.spoken, m, bytes, hlist', hentry, hb,
    (hs.file _ hf bytes).mpr hfile⟩

/-- Another record does not touch what is expected. -/
theorem Expects.record {m : Manifest} {e : TensorEntry} (h : a.Expects fs case expected)
    (hm : a.Lists fs m) (hfits : e.Fits) (hother : ¬ (e.case = case ∧ e.role = .expected)) :
    a.Expects (a.withManifest fs (m.record e)) case expected := by
  obtain ⟨m', bytes, hlist, hentry, hb, hfile⟩ := h.staged
  rw [← hm.unique hlist] at hentry
  refine ⟨h.case_ok, withManifest_stands hm h.stands _, h.spoken, m.record e, bytes,
    withManifest_lists hm h.stands (hm.fits.record hfits), ?_, hb, ?_⟩
  · rw [m.tensor?_record_of_ne hother, hentry]
  · rw [withManifest_get?, if_neg, hfile]
    exact a.location_tensorPath_ne_fixed manifest_fixed case .expected

theorem decodeEntry_external_raw (hf : a.format = .raw) (role : Role) (kind : ElementType)
    (bytes : Bytes) : decodeEntry (a.externalEntry case role (none, kind) bytes) bytes =
      (RawFile.decodeFlat bytes kind).mapError .dataset := by
  simp only [decodeEntry, externalEntry, hf, parse_name, parse?_name]
  rfl

theorem decodeEntry_external_npy (hf : a.format = .npy) (role : Role) (shape : Shape)
    (kind : ElementType) (bytes : Bytes) :
    decodeEntry (a.externalEntry case role (some shape, kind) bytes) bytes =
      (Tensor.ofFile bytes .npy [] .f32).mapError .dataset := by
  simp only [decodeEntry, externalEntry, hf, parse_name, parse?_name]
  rfl

/-- What the record of a candidate decodes to, and what that is taken for. -/
def Yields (a : Area) (case : String) (expected : Tensor) (told : Option Shape × ElementType)
    (bytes : Bytes) (candidate : Tensor) : Prop :=
  ∃ found, decodeEntry (a.externalEntry case .candidate told bytes) bytes = .ok found ∧
    Adopts case expected (a.externalEntry case .candidate told bytes) found candidate

section Yields

variable {bytes : Bytes} {candidate : Tensor}

/-- Raw bytes yield their words in the expected shape when there are as many as are expected. -/
theorem yields_raw_iff (he : expected.Representable) (hkind : expected.elementType = .f32)
    (hf : a.format = .raw) : a.Yields case expected (none, .f32) bytes candidate ↔
      bytes.length = 4 * expected.length ∧
        candidate = ⟨expected.shape, .f32 (Single.listOfBytes bytes)⟩ := by
  rw [Yields, decodeEntry_external_raw hf]
  constructor
  · rintro ⟨found, hd, hadopt⟩
    cases hflat : RawFile.decodeFlat bytes .f32 with
    | error cause =>
      rw [hflat] at hd
      cases hd
    | ok t =>
      rw [hflat] at hd
      cases hd
      obtain ⟨hwhole, -, rfl⟩ := (decodeFlat_eq_ok).mp hflat
      obtain ⟨hlength, rfl⟩ := (adoptShape_eq_ok he).mp hadopt
      refine ⟨?_, rfl⟩
      change (Single.listOfBytes bytes).length = expected.length at hlength
      rw [Single.length_listOfBytes] at hlength
      omega
  · rintro ⟨hlength, rfl⟩
    have hlt : bytes.length < wordLimit := by
      have hbytes := he.bytes
      have hitem : expected.elements.elementType = .f32 := hkind
      rw [Elements.length_toBytes, hitem, Nat.mul_comm] at hbytes
      rw [hlength]
      exact hbytes
    refine ⟨_, by rw [(decodeFlat_eq_ok).mpr ⟨by omega, hlt, rfl⟩]; rfl, ?_⟩
    refine (adoptShape_eq_ok he).mpr ⟨?_, rfl⟩
    change (Single.listOfBytes bytes).length = expected.length
    rw [Single.length_listOfBytes]
    omega

/-- An npy file yields what it is read as. -/
theorem yields_npy_iff (hf : a.format = .npy) {t : Tensor}
    (hread : Tensor.ofFile bytes .npy [] .f32 = .ok t) :
    a.Yields case expected (some t.shape, t.elementType) bytes candidate ↔ t = candidate := by
  rw [Yields, decodeEntry_external_npy hf, hread]
  constructor
  · rintro ⟨found, hd, hadopt⟩
    cases hd
    cases hadopt
    rfl
  · rintro rfl
    exact ⟨t, rfl, rfl⟩

/-- A recorded file yields a candidate of the expected shape exactly when its bytes deliver it. -/
theorem yields_iff (he : expected.Representable) (hkind : expected.elementType = .f32)
    {path : String} {told : Option Shape × ElementType}
    (htold : a.describe path bytes .f32 = .ok told) :
    a.Yields case expected told bytes candidate ∧ expected.shape = candidate.shape ↔
      a.format.Delivers expected bytes candidate := by
  cases hformat : a.format with
  | raw =>
    rw [describe, hformat] at htold
    cases htold
    rw [yields_raw_iff he hkind hformat]
    exact and_iff_left_of_imp fun h => by rw [h.2]
  | npy =>
    obtain ⟨t, hread, rfl⟩ := (describe_npy_eq_ok hformat).mp htold
    rw [yields_npy_iff hformat hread, DatasetFormat.Delivers, hread, Except.ok.injEq]
    exact and_congr_right fun _ => eq_comm

end Yields

/-- Bytes that deliver a candidate tell enough of it to be recorded. -/
theorem describe_of_delivers {bytes : Bytes} {candidate : Tensor}
    (h : a.format.Delivers expected bytes candidate) (path : String) :
    ∃ told, a.describe path bytes .f32 = .ok told := by
  rw [describe]
  cases hformat : a.format with
  | raw => exact ⟨_, rfl⟩
  | npy =>
    rw [hformat] at h
    simp only [h.1]
    exact ⟨_, rfl⟩

/-- The candidate of a case is recorded as a tool wrote it. -/
structure Collected (a : Area) (fs : Files) (case : String) (told : Option Shape × ElementType)
    (bytes : Bytes) : Prop where
  /-- It is recorded. -/
  listed : ∃ m, a.Lists fs m ∧
    m.tensor? case .candidate = some (a.externalEntry case .candidate told bytes)
  /-- The record says what the file tells. -/
  described : a.describe (a.tensorPath case .candidate) bytes .f32 = .ok told
  /-- The file is there. -/
  file : fs.read (a.tensorPath case .candidate) = .ok bytes

variable {told : Option Shape × ElementType} {bytes : Bytes}

/-- The file of a tensor is as it was when the manifest is written. -/
theorem read_withManifest {m : Manifest} {role : Role} (hc : checkCase case = .ok ())
    (hm : a.Lists fs m) (hr : fs.read (a.tensorPath case role) = .ok bytes) (m' : Manifest) :
    (a.withManifest fs m').read (a.tensorPath case role) = .ok bytes := by
  have hn := a.isName_tensorFile (checkCase_ok hc).1 role
  have hne := a.location_tensorPath_ne_fixed manifest_fixed case role
  rw [tensorPath, location_join a.root hn] at hne
  rw [tensorPath, Files.read_join_eq_ok hn] at hr ⊢
  refine ⟨withManifest_stands hm hr.1 _, hr.2.1, ?_⟩
  rw [withManifest_get?, if_neg, hr.2.2]
  exact hne

/-- A candidate that could be told of is collected when its record is made. -/
theorem collected_of_record {m : Manifest} (hc : checkCase case = .ok ()) (hs : fs.Stands a.root)
    (hm : a.Lists fs m) (hd : a.describe (a.tensorPath case .candidate) bytes .f32 = .ok told)
    (hr : fs.read (a.tensorPath case .candidate) = .ok bytes) :
    a.Collected (a.withManifest fs (m.record (a.externalEntry case .candidate told bytes))) case
      told bytes := by
  have hfits : (a.externalEntry case .candidate told bytes).Fits := fits_externalEntry hd bytes
  exact ⟨⟨_, withManifest_lists hm hs (hm.fits.record hfits), m.tensor?_record _⟩, hd,
    read_withManifest hc hm hr _⟩

/-- The pair of a case, when its shapes agree, is what is expected and a candidate that the
bytes deliver. -/
theorem loadPair_iff (hexpects : a.Expects fs case expected) (he : expected.Representable)
    (hkind : expected.elementType = .f32) (hcollected : a.Collected fs case told bytes)
    (pair : StagedPair) :
    (a.loadPair case).run fs = (.ok pair, fs) ∧ pair.expected.shape = pair.candidate.shape ↔
      pair.expected = expected ∧ a.format.Delivers expected bytes pair.candidate ∧
        pair.digest = Digest.sha256Hex bytes := by
  obtain ⟨m, hm, hentry⟩ := hcollected.listed
  have hload := hexpects.load he
  constructor
  · rintro ⟨hrun, hshape⟩
    obtain ⟨-, e, found, hpair⟩ := (a.loadPair_ends case fs).of_ok hrun
    obtain ⟨m', hm', he'⟩ := hpair.entry
    rw [← hm.unique hm', hentry] at he'
    cases he'
    have hexpected := hpair.expected
    rw [hload] at hexpected
    have hbytes := hpair.file
    change fs.read (a.tensorPath case .candidate) = .ok found at hbytes
    rw [hcollected.file] at hbytes
    cases hbytes
    have hsame : pair.expected = expected := by
      cases hexpected
      rfl
    have hyields := hpair.decoded
    rw [hsame] at hyields hshape
    exact ⟨hsame, (yields_iff he hkind hcollected.described).mp ⟨hyields, hshape⟩, hpair.digest⟩
  · rintro ⟨hsame, hdelivers, hdigest⟩
    obtain ⟨hyields, hshape⟩ := (yields_iff he hkind hcollected.described).mpr hdelivers
    rw [← hsame] at hload hyields hshape
    exact ⟨(Pairs.load ⟨hload, ⟨m, hm, hentry⟩, hcollected.file, hyields, hdigest⟩), hshape⟩

/-- A collected candidate is compared exactly when its bytes deliver one that is near to what is
expected, under a tolerance. -/
theorem compareStaged_iff (hexpects : a.Expects fs case expected) (he : expected.Representable)
    (hkind : expected.elementType = .f32) (hcollected : a.Collected fs case told bytes)
    {tolerance : Double} :
    (∃ comparison, (a.compareStaged case tolerance).run fs = (.ok comparison, fs)) ↔
      tolerance.IsTolerance ∧ ∃ candidate, a.format.Delivers expected bytes candidate ∧
        tolerance.Near expected candidate := by
  constructor
  · rintro ⟨comparison, hrun⟩
    obtain ⟨-, e, found, pair, hpair, hclose⟩ := compareStaged_eq_ok.mp hrun
    obtain ⟨ht, hnear⟩ := compareTensors_ok_iff.mp ⟨comparison, hclose⟩
    obtain ⟨hsame, hdelivers, -⟩ :=
      (loadPair_iff hexpects he hkind hcollected pair).mp ⟨hpair.load, hnear.shape⟩
    exact ⟨ht, pair.candidate, hdelivers, hsame ▸ hnear⟩
  · rintro ⟨ht, candidate, hdelivers, hnear⟩
    have hpair := loadPair_iff hexpects he hkind hcollected
      ⟨expected, candidate, Digest.sha256Hex bytes⟩
    obtain ⟨hload, -⟩ := hpair.mpr ⟨rfl, hdelivers, rfl⟩
    obtain ⟨comparison, hclose⟩ : ∃ comparison,
        compareTensors case expected candidate tolerance = .ok comparison :=
      compareTensors_ok_iff.mpr ⟨ht, hnear⟩
    refine ⟨comparison, ?_⟩
    rw [compareStaged, run_bind_of_ok hload]
    simp only [hclose, run_settle]

end Area

end NetTrial
