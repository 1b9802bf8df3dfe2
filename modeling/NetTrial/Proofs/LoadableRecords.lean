import NetTrial.Proofs.Deliveries
import NetTrial.Proofs.Invoking
/-!
# Loading what was recorded

A tensor that a tool wrote is recorded first and loaded later, and both look at the file: loading
decodes it, recording decodes an npy file, for its shape, and takes a raw file as it is. So an npy
file that was recorded can be loaded and one that cannot be decoded is refused, while a raw file is
recorded whatever it holds and can be loaded when its bytes are whole elements.
-/

namespace NetTrial

open NetTrial.Path Text

/-- What a file is decoded as when its shape is not known. -/
def DatasetFormat.decodeBare (format : DatasetFormat) (bytes : Bytes) (kind : ElementType) :
    Except DatasetError Tensor :=
  match format with
  | .raw => RawFile.decodeFlat bytes kind
  | .npy => Tensor.ofFile bytes .npy [] kind

namespace Area

variable {a : Area} {fs fs' : Files} {case : String} {role : Role} {kind : ElementType}
  {bytes : Bytes} {told : Option Shape × ElementType}

theorem describe_raw (hf : a.format = .raw) (path : String) (bytes : Bytes) (kind : ElementType) :
    a.describe path bytes kind = .ok (none, kind) := by
  rw [describe, hf]

theorem describe_npy (hf : a.format = .npy) (path : String) (bytes : Bytes) (kind : ElementType) :
    a.describe path bytes kind = ((a.format.decodeBare bytes kind).map fun t =>
      (some t.shape, t.elementType)).mapError fun cause => .decode path (.dataset cause) := by
  rw [describe, hf]
  change _ = ((Tensor.ofFile bytes .npy [] kind).map _).mapError _
  cases Tensor.ofFile bytes .npy [] kind <;> rfl

/-- What a file tells is what it is decoded as, if it can be decoded. -/
theorem describe_told {path : String} {t : Tensor} (h : a.describe path bytes kind = .ok told)
    (ht : a.format.decodeBare bytes kind = .ok t) :
    t.elementType = told.2 ∧ ∀ shape, told.1 = some shape → t.shape = shape := by
  cases hformat : a.format with
  | raw =>
    rw [describe_raw hformat] at h
    rw [hformat] at ht
    cases h
    obtain ⟨-, -, rfl⟩ := decodeFlat_eq_ok_iff.mp ht
    refine ⟨?_, nofun⟩
    cases kind <;> rfl
  | npy =>
    rw [describe_npy hformat, ht] at h
    cases h
    exact ⟨rfl, fun shape hshape => Option.some.inj hshape⟩

/-- A record that was made of a file is decoded as the file is. -/
theorem decodeEntry_external {path : String} (h : a.describe path bytes kind = .ok told) :
    decodeEntry (a.externalEntry case role told bytes) bytes =
      (a.format.decodeBare bytes kind).mapError .dataset := by
  cases hformat : a.format with
  | raw =>
    rw [describe_raw hformat] at h
    cases h
    exact decodeEntry_external_raw hformat role kind bytes
  | npy =>
    obtain ⟨t, -, rfl⟩ := (describe_npy_eq_ok hformat).mp h
    exact decodeEntry_external_npy hformat role t.shape t.elementType bytes

/-- A raw file can be decoded when it is whole. -/
theorem decodeBare_raw_iff :
    (∃ t, DatasetFormat.raw.decodeBare bytes kind = .ok t) ↔
      bytes.length % kind.itemSize = 0 ∧ bytes.length < wordLimit := by
  constructor
  · rintro ⟨t, ht⟩
    obtain ⟨hwhole, hlt, -⟩ := decodeFlat_eq_ok_iff.mp ht
    exact ⟨hwhole, hlt⟩
  · rintro ⟨hwhole, hlt⟩
    exact ⟨_, decodeFlat_of_whole hwhole hlt⟩

/-- A file that tells what has to be recorded can be decoded when it is npy, or whole. -/
theorem decodeBare_iff_of_describe {path : String}
    (h : a.describe path bytes kind = .ok told) :
    (∃ t, a.format.decodeBare bytes kind = .ok t) ↔
      a.format = .npy ∨ bytes.length % kind.itemSize = 0 ∧ bytes.length < wordLimit := by
  cases hformat : a.format with
  | raw => exact (decodeBare_raw_iff).trans (or_iff_right nofun).symm
  | npy =>
    obtain ⟨t, hread, -⟩ := (describe_npy_eq_ok hformat).mp h
    exact iff_of_true ⟨t, hread⟩ (.inl rfl)

/-- A recorded file is loaded as it is decoded. -/
theorem load_recorded {entry : TensorEntry} (hr : fs.read (a.tensorPath case role) = .ok bytes)
    (h : (a.recordExternal case role kind).run fs = (.ok entry, fs')) :
    (∃ told, a.describe (a.tensorPath case role) bytes kind = .ok told ∧
      entry = a.externalEntry case role told bytes) ∧
    (a.loadTensor case role).run fs' = ((a.format.decodeBare bytes kind).mapError fun cause =>
      .decode (a.tensorPath case role) (.dataset cause), fs') := by
  rcases a.recordExternal_ends case role kind fs with
    ⟨e, he⟩ | ⟨found, told, m, hc, hfound, hd, hs, hm, hrun⟩
  · rw [he] at h
    cases h
  · rw [hr] at hfound
    cases hfound
    rw [hrun] at h
    cases h
    refine ⟨⟨told, hd, rfl⟩, ?_⟩
    have hfits : (a.externalEntry case role told bytes).Fits := fits_externalEntry hd bytes
    -- The manifest lists the new record, and writing it did not touch the file of the tensor.
    have hlist := withManifest_lists hm hs (hm.fits.record hfits)
    have hload := loadTensor_of_entry hlist (m.tensor?_record _) (read_withManifest hc hm hr _)
    rw [decodeEntry_external hd] at hload
    refine hload.trans ?_
    cases a.format.decodeBare bytes kind <;> rfl

/-- A file that was recorded could be read, and is as it was. -/
theorem read_recorded {entry : TensorEntry}
    (h : (a.recordExternal case role kind).run fs = (.ok entry, fs')) :
    ∃ bytes, fs.read (a.tensorPath case role) = .ok bytes ∧
      fs'.read (a.tensorPath case role) = .ok bytes := by
  rcases a.recordExternal_ends case role kind fs with
    ⟨e, he⟩ | ⟨bytes, told, m, hc, hr, -, -, hm, hrun⟩
  · rw [he] at h
    cases h
  · rw [hrun] at h
    cases h
    exact ⟨bytes, hr, read_withManifest hc hm hr _⟩

/-- A raw file is recorded whatever it holds. -/
theorem recordExternal_raw {m : Manifest} (hc : checkCase case = .ok ())
    (hr : fs.read (a.tensorPath case role) = .ok bytes) (hm : a.Lists fs m)
    (hf : a.format = .raw) :
    (a.recordExternal case role kind).run fs =
      (.ok (a.externalEntry case role (none, kind) bytes),
        a.withManifest fs (m.record (a.externalEntry case role (none, kind) bytes))) := by
  have hs := ((Files.read_join_eq_ok (a.isName_tensorFile (checkCase_ok hc).1 role)).mp hr).1
  rw [recordExternal_run hc hr (describe_raw hf _ _ _), updateManifest_of_lists hm hs]
  rfl

/-- An npy file that cannot be decoded is not recorded, and nothing is changed. -/
theorem recordExternal_undecodable {cause : DatasetError} (hc : checkCase case = .ok ())
    (hr : fs.read (a.tensorPath case role) = .ok bytes) (hf : a.format = .npy)
    (hcause : a.format.decodeBare bytes kind = .error cause) :
    (a.recordExternal case role kind).run fs =
      (.error (.decode (a.tensorPath case role) (.dataset cause)), fs) := by
  rw [recordExternal, Action.run_settle_bind, hc]
  simp only
  rw [Action.run_bind_of_ok (readExisting_eq_ok.mpr hr), Action.run_settle_bind,
    describe_npy hf, hcause]
  rfl

/-- After a record there is a tensor to load exactly when the file is npy or whole. -/
theorem load_recorded_iff {entry : TensorEntry}
    (hr : fs.read (a.tensorPath case role) = .ok bytes)
    (h : (a.recordExternal case role kind).run fs = (.ok entry, fs')) :
    (∃ t, (a.loadTensor case role).run fs' = (.ok t, fs')) ↔
      a.format = .npy ∨ bytes.length % kind.itemSize = 0 ∧ bytes.length < wordLimit := by
  obtain ⟨⟨told, hd, -⟩, hload⟩ := load_recorded hr h
  rw [← decodeBare_iff_of_describe hd, hload]
  refine exists_congr fun t => ?_
  cases a.format.decodeBare bytes kind with
  | error cause => exact ⟨nofun, nofun⟩
  | ok found =>
    constructor
    · intro hfound
      cases hfound
      rfl
    · intro hfound
      cases hfound
      rfl

/-- Recording vouches for what can be loaded in the npy format only. A file that can be decoded is
loaded as it is decoded, with the element type and the shape of its record; one that cannot be
decoded is refused when it is npy, and when it is raw it is recorded all the same and not loaded.
So after a record there is a tensor to load exactly when the file is npy or holds whole
elements. -/
theorem recorded_loads (hr : fs.read (a.tensorPath case role) = .ok bytes) :
    (∀ entry fs', (a.recordExternal case role kind).run fs = (.ok entry, fs') →
      (∀ t, a.format.decodeBare bytes kind = .ok t →
        (a.loadTensor case role).run fs' = (.ok t, fs') ∧ t.elementType.name = entry.dtype ∧
          ∀ shape, entry.shape = some shape → t.shape = shape) ∧
      (∀ cause, a.format.decodeBare bytes kind = .error cause → a.format = .raw ∧
        (a.loadTensor case role).run fs' =
          (.error (.decode (a.tensorPath case role) (.dataset cause)), fs')) ∧
      ((∃ t, (a.loadTensor case role).run fs' = (.ok t, fs')) ↔
        a.format = .npy ∨ bytes.length % kind.itemSize = 0 ∧ bytes.length < wordLimit)) ∧
    ∀ cause, checkCase case = .ok () → a.format = .npy →
      a.format.decodeBare bytes kind = .error cause →
      (a.recordExternal case role kind).run fs =
        (.error (.decode (a.tensorPath case role) (.dataset cause)), fs) := by
  refine ⟨fun entry fs' h => ?_, fun cause hc hf hcause => ?_⟩
  case refine_2 => exact recordExternal_undecodable hc hr hf hcause
  obtain ⟨⟨told, hd, rfl⟩, hload⟩ := load_recorded hr h
  refine ⟨fun t ht => ?_, fun cause hcause => ?_, load_recorded_iff hr h⟩
  · rw [ht] at hload
    obtain ⟨hkind, hshape⟩ := describe_told hd ht
    exact ⟨hload, congrArg ElementType.name hkind, hshape⟩
  · rw [hcause] at hload
    refine ⟨?_, hload⟩
    cases hformat : a.format with
    | raw => rfl
    | npy =>
      rw [describe_npy hformat, hcause] at hd
      cases hd

/-- Two words as a raw candidate, and an npy candidate of one byte. -/
def delivered : Files :=
  ((Files.empty.set ["w"] .directory).set ["w", "test.candidate.bin"]
    (.file [0x00, 0x00, 0xc0, 0x40, 0x00, 0x00, 0x00, 0x00])).set ["w", "test.candidate.npy"]
    (.file [0x93])

theorem delivered_loads :
    (∃ entry fs', ((⟨"w", .raw⟩ : Area).recordExternal "test" .candidate .f32).run delivered =
        (.ok entry, fs') ∧
      ((⟨"w", .raw⟩ : Area).loadTensor "test" .candidate).run fs' =
        (.ok ⟨[2], .f32 [.six, .zero]⟩, fs') ∧ entry.dtype = "float32") ∧
    ((⟨"w", .npy⟩ : Area).recordExternal "test" .candidate .f32).run delivered =
      (.error (.decode "w/test.candidate.npy" (.dataset .magic)), delivered) := by
  have hraw : delivered.read ((⟨"w", .raw⟩ : Area).tensorPath "test" .candidate) =
      .ok [0x00, 0x00, 0xc0, 0x40, 0x00, 0x00, 0x00, 0x00] := rfl
  have hnpy : delivered.read ((⟨"w", .npy⟩ : Area).tensorPath "test" .candidate) =
      .ok [0x93] := rfl
  have hm : (⟨"w", .raw⟩ : Area).Lists delivered .empty := rfl
  have hrun : ((⟨"w", .raw⟩ : Area).recordExternal "test" .candidate .f32).run delivered = _ :=
    recordExternal_raw rfl hraw hm rfl
  obtain ⟨hload, hdtype, -⟩ := ((recorded_loads hraw).1 _ _ hrun).1 _ rfl
  exact ⟨⟨_, _, hrun, hload, hdtype.symm⟩, (recorded_loads hnpy).2 _ rfl rfl rfl⟩

/-- A directory with a raw candidate of five bytes. -/
def ragged : Files :=
  (Files.empty.set ["w"] .directory).set ["w", "test.candidate.bin"]
    (.file [0x00, 0x00, 0x80, 0x3f, 0x00])

/-- A candidate of five bytes is recorded as words, and it cannot be loaded. -/
theorem ragged_recorded : ∃ entry fs',
    ((⟨"w", .raw⟩ : Area).recordExternal "test" .candidate .f32).run ragged =
      (.ok entry, fs') ∧
    ((⟨"w", .raw⟩ : Area).loadTensor "test" .candidate).run fs' =
      (.error (.decode "w/test.candidate.bin" (.dataset (.incomplete 4 5))), fs') := by
  have hr : ragged.read ((⟨"w", .raw⟩ : Area).tensorPath "test" .candidate) =
      .ok [0x00, 0x00, 0x80, 0x3f, 0x00] := rfl
  have hm : (⟨"w", .raw⟩ : Area).Lists ragged .empty := rfl
  have hrun : ((⟨"w", .raw⟩ : Area).recordExternal "test" .candidate .f32).run ragged = _ :=
    recordExternal_raw rfl hr hm rfl
  exact ⟨_, _, hrun, (load_recorded hr hrun).2⟩

/-! ## Inferring -/

/-- After an inference there is a candidate to load exactly when its file is npy or holds whole
words. -/
theorem inferred_loads_iff {σ : Type} {l : Launcher σ} {c : ToolCommand} {o : InferOptions}
    {b b' : Bench σ} {path : String} (h : (a.inferStaged l c case o).run b = (.ok path, b')) :
    ∃ bytes, b'.files.read (a.tensorPath case .candidate) = .ok bytes ∧
      ((∃ t, (a.loadTensor case .candidate).run b'.files = (.ok t, b'.files)) ↔
        a.format = .npy ∨ bytes.length % 4 = 0 ∧ bytes.length < wordLimit) := by
  have hends := a.inferStaged_ends l c case o b
  rw [h] at hends
  cases hends with
  | recorded _ _ hrecord =>
    obtain ⟨bytes, hr, hr'⟩ := read_recorded hrecord
    exact ⟨bytes, hr', load_recorded_iff hr hrecord⟩

end Area

end NetTrial
