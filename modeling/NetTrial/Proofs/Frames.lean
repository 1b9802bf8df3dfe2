import NetTrial.Proofs.Clearing
import NetTrial.Proofs.Entries
/-!
# What a call leaves alone

Calls write files at places of their own and make directories at most; only clearing takes
directories away. Elsewhere every file is as it was. What the document of the manifest says is
told apart from whether its path leads there: a call changes it by its own entry or not at all.
-/

namespace NetTrial

open NetTrial.Path Text

namespace Files

variable {fs fs' : Files} {spots : Location → Prop}

/-- Outside some locations the files are the same, and every directory is kept. -/
structure Spares (spots : Location → Prop) (fs fs' : Files) : Prop where
  /-- Elsewhere there are the same files. -/
  file : ∀ loc, ¬ spots loc → ∀ bytes,
    fs'.get? loc = some (.file bytes) ↔ fs.get? loc = some (.file bytes)
  /-- No directory is lost. -/
  directory : ∀ loc, fs.isDirectoryAt loc = true → fs'.isDirectoryAt loc = true

theorem Spares.refl (spots : Location → Prop) (fs : Files) : fs.Spares spots fs :=
  ⟨fun _ _ _ => Iff.rfl, fun _ h => h⟩

theorem Spares.trans {fs'' : Files} (h : fs.Spares spots fs') (h' : fs'.Spares spots fs'') :
    fs.Spares spots fs'' :=
  ⟨fun loc hl bytes => (h'.file loc hl bytes).trans (h.file loc hl bytes),
    fun loc hd => h'.directory loc (h.directory loc hd)⟩

theorem Spares.mono {spots' : Location → Prop} (h : fs.Spares spots fs')
    (hs : ∀ loc, spots loc → spots' loc) : fs.Spares spots' fs' :=
  ⟨fun loc hl => h.file loc fun hx => hl (hs loc hx), h.directory⟩

theorem Spares.stands (h : fs.Spares spots fs') {path : String} (hs : fs.Stands path) :
    fs'.Stands path := hs.mono h.directory

/-- A file that is not at one of the locations is still read. -/
theorem Spares.read (h : fs.Spares spots fs') {path : String} {bytes : Bytes}
    (hr : fs.read path = .ok bytes) (hp : ¬ spots (location path)) : fs'.read path = .ok bytes := by
  obtain ⟨loc, hl⟩ := read_eq_ok.mp hr
  obtain ⟨hc, hf, hg⟩ := locate_eq_ok.mp hl
  rw [(locate_location hl).1] at hf hg
  have hg' := (h.file _ hp bytes).mpr hg
  refine read_eq_ok.mpr ⟨_, locate_eq_ok.mpr ⟨hc, follow_mono h.directory hf ?_, hg'⟩⟩
  rw [hg']
  rfl

theorem Grows.spares {spots' : Location → Prop} (h : fs.Grows spots' fs') :
    fs.Spares spots fs' := by
  refine ⟨fun loc _ bytes => ⟨h.file, fun hf => ?_⟩, fun loc => h.isDirectoryAt⟩
  rw [h.kept loc (by simp [hf]), hf]

/-- Only the one place is changed when a file is put there. -/
theorem spares_set {spot : Location} (hne : spot ≠ [])
    (hd : fs.get? spot ≠ some .directory) (bytes : Bytes) :
    fs.Spares (· = spot) (fs.set spot (.file bytes)) := by
  refine ⟨fun loc hl found => ?_, fun loc hdir => ?_⟩
  · rw [get?_set fs hne, if_neg hl]
  · rw [isDirectoryAt_iff] at hdir ⊢
    rw [get?_set fs hne, if_neg, hdir]
    rintro rfl
    exact hd hdir

theorem Placed.spares {path : String} {bytes : Bytes} (h : fs.Placed path bytes fs') :
    fs.Spares (· = location path) fs' := by
  rw [h.same]
  exact spares_set h.below h.free bytes

/-- A file that was written is read. -/
theorem read_of_write {path : String} {bytes : Bytes} (h : fs.write path bytes = .ok fs') :
    fs'.read path = .ok bytes := by
  have hplaced := write_placed h
  rw [write] at h
  obtain ⟨_, hw, -⟩ := bind_eq_ok_iff.mp h
  obtain ⟨⟨directory, name, hentry⟩, hslash⟩ := entry_of_writable hw
  have hentry' := hentry.mono hplaced.spares.directory
  obtain ⟨front, hnamed, hfollow⟩ := hentry'.leads
  have hfile : fs'.get? (location path) = some (.file bytes) := by
    rw [hplaced.same, get?_set fs hplaced.below, if_pos rfl]
  refine read_eq_ok.mpr ⟨location path, locate_eq_ok.mpr ⟨hentry.admitted, ?_, hfile⟩⟩
  rw [pieces_of_named hnamed hslash]
  refine follow_append_eq_ok.mpr ⟨directory, hfollow,
    follow_cons_eq_ok.mpr ⟨hentry'.parent, ?_, Or.inr (Or.inr ⟨hentry.short, ?_⟩)⟩⟩
  · rw [step, if_neg (by simp [hentry.moves]), if_neg hentry.forward, hentry.location_eq]
    rfl
  · rw [hentry.location_eq, hfile]
    rfl

theorem removeFile_spares {path : String} (h : fs.removeFile path = .ok fs') :
    fs.Spares (· = location path) fs' := by
  obtain ⟨rfl, bytes, hf⟩ := removeFile_ok h
  refine ⟨fun loc hl found => by rw [get?_drop_of_ne fs hl], fun loc hdir => ?_⟩
  rw [isDirectoryAt_iff] at hdir ⊢
  rw [get?_drop_of_ne fs, hdir]
  rintro rfl
  rw [hdir] at hf
  cases hf

end Files

/-! ## The journal -/

namespace Journal

variable {σ α : Type} {j : Journal} {step : String}

/-- The journal is kept at a location. -/
def IsAt (j : Journal) (loc : Location) : Prop := ∃ path, j.path = some path ∧ loc = location path

theorem append_spares (j : Journal) (line : Line) (fs : Files) :
    fs.Spares j.IsAt ((j.append line).run fs).2 := by
  rw [append]
  cases hj : j.path with
  | none => exact Files.Spares.refl _ _
  | some path =>
    have hparent : fs.Spares j.IsAt ((makeParent path).run fs).2 := by
      rw [makeParent]
      cases parent? path with
      | none => exact Files.Spares.refl _ _
      | some up =>
        rw [Action.run_attempt]
        exact (Files.makeDirectories_grows fs up).spares
    change fs.Spares j.IsAt ((makeParent path >>= fun _ => Action.edit path _).run fs).2
    rw [Action.run_bind]
    rcases hrun : (makeParent path).run fs with ⟨e | _, fs₁⟩
    · rw [hrun] at hparent
      exact hparent
    · rw [hrun] at hparent
      refine hparent.trans ?_
      change fs₁.Spares j.IsAt ((Action.edit path _).run fs₁).2
      rw [Action.run_edit]
      cases ha : fs₁.append path (line.toJson.compactBytes ++ encodeChars ['\n']) with
      | error e => exact Files.Spares.refl _ _
      | ok fs₂ =>
        obtain ⟨all, hp⟩ := Files.append_placed ha
        exact hp.spares.mono fun loc hl => ⟨path, hj, hl⟩

/-- A line that cannot be written is a failure of the file system. -/
theorem append_error {line : Line} {fs fs' : Files} {e : Failure}
    (h : (j.append line).run fs = (.error e, fs')) : ∃ path cause, e = .os path cause := by
  have hends : (j.append line).Ends fs (fun e _ => ∃ path cause, e = .os path cause)
      fun _ _ => True := by
    rw [append]
    cases j.path with
    | none => exact Action.ends_pure trivial
    | some path =>
      refine .bind ⟨fun {e fs₁} hr => ?_, fun {_ fs₁} _ => ⟨fun {e fs₂} hr => ?_, fun _ => trivial⟩⟩
      · rw [makeParent] at hr
        cases hp : parent? path with
        | none =>
          rw [hp] at hr
          cases hr
        | some up =>
          simp only [hp, Action.run_attempt] at hr
          cases hm : (fs.makeDirectories up).1 with
          | error cause =>
            rw [hm] at hr
            cases hr
            exact ⟨up, cause, rfl⟩
          | ok _ =>
            rw [hm] at hr
            cases hr
      · rw [Action.run_edit] at hr
        cases ha : fs₁.append path (line.toJson.compactBytes ++ encodeChars ['\n']) with
        | error cause =>
          rw [ha] at hr
          cases hr
          exact ⟨path, cause, rfl⟩
        | ok fs₂ =>
          rw [ha] at hr
          cases hr
  exact hends.of_error h

theorem Closes.spares {bare logged : Except Failure α × Files} (h : j.Closes step bare logged) :
    bare.2.Spares j.IsAt logged.2 := by
  obtain ⟨line, -, hl⟩ := h
  rw [hl]
  exact j.append_spares line bare.2

/-- On the files of a bench a logged step is one on files. -/
theorem ClosesOnBench.closes {bare logged : Except Failure α × Bench σ}
    (h : j.ClosesOnBench step bare logged) :
    j.Closes step (bare.1, bare.2.files) (logged.1, logged.2.files) := by
  obtain ⟨line, htells, hl⟩ := h
  rw [hl]
  exact ⟨line, htells, rfl⟩

theorem ClosesOnBench.spares {bare logged : Except Failure α × Bench σ}
    (h : j.ClosesOnBench step bare logged) : bare.2.files.Spares j.IsAt logged.2.files :=
  h.closes.spares

/-- The journal is not on the ledger. -/
theorem ClosesOnBench.ledger {bare logged : Except Failure α × Bench σ}
    (h : j.ClosesOnBench step bare logged) : logged.2.ledger = bare.2.ledger := by
  obtain ⟨line, -, hl⟩ := h
  rw [hl]

/-- A logged step that succeeded did what the bare one did. -/
theorem Closes.ok {bare logged : Except Failure α × Files} (h : j.Closes step bare logged)
    {value : α} (hok : logged.1 = .ok value) : bare.1 = .ok value := by
  obtain ⟨line, -, hl⟩ := h
  rw [hl] at hok
  exact (verdict_eq_ok.mp hok).1

theorem ClosesOnBench.ok {bare logged : Except Failure α × Bench σ}
    (h : j.ClosesOnBench step bare logged) {value : α} (hok : logged.1 = .ok value) :
    bare.1 = .ok value := h.closes.ok hok

/-- A logged step fails as the bare one does, or because its line cannot be written. -/
theorem ClosesOnBench.error {bare logged : Except Failure α × Bench σ}
    (h : j.ClosesOnBench step bare logged) {e : Failure} (he : logged.1 = .error e) :
    bare.1 = .error e ∨ ∃ path cause, e = .os path cause := by
  obtain ⟨line, -, hl⟩ := h
  rw [hl] at he
  rcases hb : bare.1 with cause | value
  · rw [hb] at he
    cases he
    exact Or.inl rfl
  · rw [hb] at he
    right
    rcases hw : (j.append line).run bare.2.files with ⟨cause | _, fs'⟩
    · rw [hw] at he
      cases he
      exact append_error hw
    · rw [hw] at he
      cases he

end Journal

/-! ## Staging and recording -/

namespace Area

variable {a : Area} {fs fs' : Files} {m : Manifest}

/-- The places that storing a file and its record may change. -/
def EntryPlaces (a : Area) (path : String) (loc : Location) : Prop :=
  loc = location path ∨ loc = a.manifestSpot

theorem Stored.spares {path : String} {bytes : Bytes} (h : a.Stored path bytes fs fs') :
    fs.Spares (· = location path) fs' := by
  obtain ⟨grown, hg, -, hw⟩ := h.made
  exact hg.spares.trans (Files.write_placed hw).spares

theorem withManifest_spares (h : a.Lists fs m) (hs : fs.Stands a.root) (m' : Manifest) :
    fs.Spares (· = a.manifestSpot) (a.withManifest fs m') :=
  Files.spares_set a.manifestSpot_ne_nil (h.get?_ne_directory hs) m'.bytes

theorem Entered.spares {path : String} {bytes : Bytes} {change : Manifest → Manifest}
    {r : Except Failure Unit} (h : a.Entered path bytes change fs r fs') :
    fs.Spares (a.EntryPlaces path) fs' := by
  cases h with
  | refused hg => exact hg.spares
  | unrecorded hst _ => exact hst.spares.mono fun _ => Or.inl
  | recorded hst hl =>
    exact (hst.spares.mono fun _ => Or.inl).trans
      ((withManifest_spares hl hst.stands _).mono fun _ => Or.inr)

/-- What rests on the manifest alone is kept by a file and its record, however far they come, when
the changed manifest keeps it. -/
theorem Entered.keeps {kept : Files → Prop} {path : String} {bytes : Bytes}
    {change : Manifest → Manifest} {r : Except Failure Unit}
    (h : a.Entered path bytes change fs r fs') (hpath : location path ≠ a.manifestSpot)
    (hspares : ∀ {spots : Location → Prop} {found left : Files}, kept found →
      found.Spares spots left → ¬ spots a.manifestSpot → kept left)
    (hchange : ∀ stored m, kept stored → a.Lists stored m → kept (a.withManifest stored (change m)))
    (hk : kept fs) : kept fs' := by
  cases h with
  | refused hg =>
    have hs : fs.Spares (fun _ => False) fs' := hg.spares
    exact hspares hk hs id
  | unrecorded hst _ => exact hspares hk hst.spares hpath.symm
  | recorded hst hl => exact hchange _ _ (hspares hk hst.spares hpath.symm) hl

/-- How staging a tensor can end. -/
theorem stageTensor_ends (a : Area) (case : String) (role : Role) (t : Tensor) (fs : Files) :
    (∃ e, (a.stageTensor case role t).run fs = (.error e, fs)) ∨
      ∃ bytes r fs', checkCase case = .ok () ∧ a.fileBytes case role t = .ok bytes ∧
        (a.stageTensor case role t).run fs = (r.map fun _ => a.tensorPath case role, fs') ∧
        a.Entered (a.tensorPath case role) bytes (·.record (a.entryOf case role t bytes)) fs r
          fs' := by
  rcases a.stageTensor_cases case role t fs with hrefused | ⟨bytes, hc, hb, hrun⟩
  · exact Or.inl hrefused
  · refine Or.inr ⟨bytes, _, _, hc, hb, ?_, a.enter_ends _ bytes _ fs⟩
    rw [hrun]
    rfl

/-- How staging a model can end. -/
theorem stageModel_ends (a : Area) (source : ModelSource) (fs : Files) :
    (∃ e, (a.stageModel source).run fs = (.error e, fs)) ∨
      ∃ bytes r fs', source.serialized = .ok bytes ∧
        (a.stageModel source).run fs = (r.map fun _ => a.modelPath source, fs') ∧
        a.Entered (a.modelPath source) bytes
          (fun m => { m with model := some (modelEntryOf source bytes) }) fs r fs' := by
  cases hb : source.serialized with
  | error e => exact Or.inl (stageModel_refused (by simp [hb]) fs)
  | ok bytes =>
    refine Or.inr ⟨bytes, _, _, rfl, ?_, a.enter_ends _ bytes _ fs⟩
    rw [stageModel_run hb]
    rfl

theorem stageTensor_spares (a : Area) (case : String) (role : Role) (t : Tensor) (fs : Files) :
    fs.Spares (a.EntryPlaces (a.tensorPath case role)) ((a.stageTensor case role t).run fs).2 := by
  rcases a.stageTensor_ends case role t fs with ⟨e, he⟩ | ⟨bytes, r, fs', -, -, hr, hends⟩
  · rw [he]
    exact .refl _ _
  · rw [hr]
    exact hends.spares

theorem stageModel_spares (a : Area) (source : ModelSource) (fs : Files) :
    fs.Spares (a.EntryPlaces (a.modelPath source)) ((a.stageModel source).run fs).2 := by
  rcases a.stageModel_ends source fs with ⟨e, he⟩ | ⟨bytes, r, fs', -, hr, hends⟩
  · rw [he]
    exact .refl _ _
  · rw [hr]
    exact hends.spares

/-- The record of a tensor that a tool wrote. -/
def externalEntry (a : Area) (case : String) (role : Role) (told : Option Shape × ElementType)
    (bytes : Bytes) : TensorEntry where
  case := case
  role := role
  file := a.tensorFile case role
  shape := told.1
  dtype := told.2.name
  format := a.format.name
  sha256 := Digest.sha256Hex bytes

/-- What an npy file tells is what it is read as. -/
theorem describe_npy_eq_ok {path : String} {bytes : Bytes} {kind : ElementType}
    {told : Option Shape × ElementType} (hf : a.format = .npy) :
    a.describe path bytes kind = .ok told ↔
      ∃ t, Tensor.ofFile bytes .npy [] kind = .ok t ∧ told = (some t.shape, t.elementType) := by
  rw [describe, hf]
  cases Tensor.ofFile bytes .npy [] kind with
  | error cause => simp
  | ok t => simp [eq_comm]

/-- What a file tells of a tensor can be recorded. -/
theorem fits_externalEntry {case : String} {role : Role} {path : String} {bytes : Bytes}
    {kind : ElementType} {told : Option Shape × ElementType}
    (h : a.describe path bytes kind = .ok told) (bytes' : Bytes) :
    (a.externalEntry case role told bytes').Fits := by
  intro shape hs
  cases hformat : a.format with
  | raw =>
    rw [describe, hformat] at h
    cases h
    cases hs
  | npy =>
    obtain ⟨t, hread, rfl⟩ := (describe_npy_eq_ok hformat).mp h
    cases hs
    exact (Tensor.ofFile_npy_gives bytes [] kind).of_ok hread

/-- What is told of a file that a tool wrote is recorded. -/
theorem recordExternal_run {case : String} {role : Role} {kind : ElementType} {bytes : Bytes}
    {told : Option Shape × ElementType} (hc : checkCase case = .ok ())
    (hr : fs.read (a.tensorPath case role) = .ok bytes)
    (hd : a.describe (a.tensorPath case role) bytes kind = .ok told) :
    (a.recordExternal case role kind).run fs =
      ((a.updateManifest (·.record (a.externalEntry case role told bytes))).run fs).map
        (·.map fun _ => a.externalEntry case role told bytes) id := by
  rw [recordExternal, Action.run_settle_bind, hc]
  simp only
  rw [Action.run_bind_of_ok (readExisting_eq_ok.mpr hr), Action.run_settle_bind, hd]
  obtain ⟨shape, kind'⟩ := told
  change ((a.updateManifest (·.record (a.externalEntry case role (shape, kind') bytes)))
    >>= fun _ => pure (a.externalEntry case role (shape, kind') bytes)).run fs = _
  rw [Action.run_bind]
  rcases (a.updateManifest _).run fs with ⟨_ | _, _⟩ <;> rfl

/-- A tensor that a tool wrote is recorded, or nothing is changed. -/
theorem recordExternal_ends (a : Area) (case : String) (role : Role) (kind : ElementType)
    (fs : Files) :
    (∃ e, (a.recordExternal case role kind).run fs = (.error e, fs)) ∨
      ∃ bytes told m, checkCase case = .ok () ∧ fs.read (a.tensorPath case role) = .ok bytes ∧
        a.describe (a.tensorPath case role) bytes kind = .ok told ∧ fs.Stands a.root ∧
        a.Lists fs m ∧
        (a.recordExternal case role kind).run fs = (.ok (a.externalEntry case role told bytes),
          a.withManifest fs (m.record (a.externalEntry case role told bytes))) := by
  cases hc : checkCase case with
  | error e => exact Or.inl ⟨e, by rw [recordExternal, Action.run_settle_bind, hc]⟩
  | ok _ =>
    cases hr : fs.read (a.tensorPath case role) with
    | error cause =>
      left
      rw [recordExternal, Action.run_settle_bind, hc]
      simp only
      rw [Action.run_bind, readExisting_run, hr]
      cases cause <;> exact ⟨_, rfl⟩
    | ok bytes =>
      cases hd : a.describe (a.tensorPath case role) bytes kind with
      | error e =>
        left
        rw [recordExternal, Action.run_settle_bind, hc]
        simp only
        rw [Action.run_bind_of_ok (readExisting_eq_ok.mpr hr), Action.run_settle_bind, hd]
        exact ⟨e, rfl⟩
      | ok told =>
        have hs := ((Files.read_join_eq_ok (a.isName_tensorFile (checkCase_ok hc).1 role)).mp hr).1
        rw [recordExternal_run hc hr hd]
        rcases a.lists_or_fails fs with ⟨m, hl⟩ | ⟨e, he⟩
        · rw [updateManifest_of_lists hl hs]
          exact Or.inr ⟨bytes, told, m, rfl, rfl, hd, hs, hl, rfl⟩
        · rw [updateManifest_of_fails he]
          exact Or.inl ⟨e, rfl⟩

theorem recordExternal_spares (a : Area) (case : String) (role : Role) (kind : ElementType)
    (fs : Files) : fs.Spares (· = a.manifestSpot) ((a.recordExternal case role kind).run fs).2 := by
  rcases a.recordExternal_ends case role kind fs with
    ⟨e, he⟩ | ⟨bytes, told, m, -, -, -, hs, hl, hr⟩
  · rw [he]
    exact .refl _ _
  · rw [hr]
    exact withManifest_spares hl hs _

/-! ## What the manifest says -/

/-- The document of an area says that a tensor is recorded by an entry. -/
def Records (a : Area) (fs : Files) (case : String) (role : Role) (e : TensorEntry) : Prop :=
  ∃ m, a.Says fs m ∧ m.tensor? case role = some e

variable {case : String} {role : Role} {e : TensorEntry}

/-- A record is an old one when the document was not written. -/
theorem Records.of_spares {spots : Location → Prop} (h : a.Records fs' case role e)
    (hs : fs.Spares spots fs') (hm : ¬ spots a.manifestSpot) : a.Records fs case role e := by
  obtain ⟨m, hsays, hm'⟩ := h
  exact ⟨m, hsays.of_file fun bytes => (hs.file _ hm bytes).mp, hm'⟩

theorem Lists.records (h : a.Lists fs m) (hm : m.tensor? case role = some e) :
    a.Records fs case role e := by
  rcases h.says_or_empty with hs | rfl
  · exact ⟨m, hs, hm⟩
  · cases hm

/-- A manifest that records a tensor stays listed when its document is not written. -/
theorem Lists.of_spares {spots : Location → Prop} (h : a.Lists fs m)
    (he : m.tensor? case role = some e) (hs : fs.Spares spots fs')
    (hspot : ¬ spots a.manifestSpot) : a.Lists fs' m := by
  rcases lists_iff.mp h with ⟨bytes, cs, hb, hd, hm⟩ | ⟨-, rfl⟩
  · have hspot' : ¬ spots (location a.manifestPath) := by
      rwa [manifestPath_eq, location_join a.root isName_manifest]
    exact lists_iff.mpr (Or.inl ⟨bytes, cs, hs.read hb hspot', hd, hm⟩)
  · cases he

/-- What a changed manifest records of a tensor that the change does not touch was recorded
before. -/
theorem Records.of_withManifest {m' : Manifest} (hl : a.Lists fs m) (hfits : m'.Fits)
    (hkeep : m'.tensor? case role = m.tensor? case role)
    (h : a.Records (a.withManifest fs m') case role e) : a.Records fs case role e := by
  obtain ⟨found, hsays, hfound⟩ := h
  have hm : found = m' := by
    refine hsays.unique (says_of_get? hfits ?_)
    rw [withManifest_get?, if_pos rfl]
  rw [hm, hkeep] at hfound
  exact hl.records hfound

theorem Entered.records {path : String} {bytes : Bytes} {change : Manifest → Manifest}
    {r : Except Failure Unit} (h : a.Entered path bytes change fs r fs')
    (hpath : location path ≠ a.manifestSpot) (hfits : ∀ m, m.Fits → (change m).Fits)
    (hkeep : r = .ok () → ∀ m : Manifest, (change m).tensor? case role = m.tensor? case role)
    (hr : a.Records fs' case role e) : a.Records fs case role e := by
  cases h with
  | refused hg =>
    have hs : fs.Spares (fun _ => False) fs' := hg.spares
    exact hr.of_spares hs id
  | unrecorded hst _ => exact hr.of_spares hst.spares hpath.symm
  | recorded hst hl =>
    have hkept := Records.of_withManifest hl (hfits _ hl.fits) (hkeep rfl _) hr
    exact hkept.of_spares hst.spares hpath.symm

end Area

end NetTrial
