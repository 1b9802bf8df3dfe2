import NetTrial.Proofs.TruthfulManifests
/-!
# Staging calls that fail

Staging checks and encodes what it is given before the directory is touched. Then the file is
written, and the manifest is read only after that, to put the record of the file in it. A call that
fails before the file is written leaves every file as it was. One that fails because the manifest
cannot be read does not: the file stays, new or with new bytes, without a record.
-/

namespace NetTrial

open NetTrial.Path Text

/-- What can be staged. -/
inductive Cargo where
  /-- A tensor of a case. -/
  | tensor (case : String) (role : Role) (t : Tensor)
  /-- A model. -/
  | model (source : ModelSource)

namespace Cargo

/-- Stages a tensor or a model and gives its path. -/
def save (a : Area) (j : Journal) : Cargo → Action Files String
  | .tensor case role t => a.saveTensor j case role t
  | .model source => a.saveModel j source

/-- The path of the file. -/
def path (a : Area) : Cargo → String
  | .tensor case role _ => a.tensorPath case role
  | .model source => a.modelPath source

/-- The bytes of the file, if case and tensor or model are fit for one. -/
def bytes (a : Area) : Cargo → Except Failure Bytes
  | .tensor case role t => do
    Area.checkCase case
    a.fileBytes case role t
  | .model source => source.serialized.mapError .modelInvalid

/-- How the manifest is changed. -/
def change (a : Area) (bytes : Bytes) : Cargo → Manifest → Manifest
  | .tensor case role t => (·.record (a.entryOf case role t bytes))
  | .model source => fun m => { m with model := some (Area.modelEntryOf source bytes) }

end Cargo

namespace Area

variable {a : Area} {j : Journal} {c : Cargo} {fs fs' stored : Files} {bytes : Bytes}
  {e : Failure}

/-- What has no bytes is refused at once. -/
theorem save_refused (hj : j.path = none) (h : ∀ bytes, c.bytes a ≠ .ok bytes) (fs : Files) :
    ∃ e, (c.save a j).run fs = (.error e, fs) := by
  cases c with
  | tensor case role t =>
    rw [Cargo.save, saveTensor_silent hj]
    refine stageTensor_refused ?_ fs
    cases hc : checkCase case with
    | error e => exact .inl (by simp)
    | ok _ =>
      refine .inr fun bytes hbytes => h bytes ?_
      rw [Cargo.bytes, hc]
      exact hbytes
  | model source =>
    rw [Cargo.save, saveModel_silent hj]
    refine stageModel_refused (fun bytes hbytes => h bytes ?_) fs
    rw [Cargo.bytes, hbytes]
    rfl

/-- What has bytes is entered. -/
theorem save_run (hj : j.path = none) (h : c.bytes a = .ok bytes) (fs : Files) :
    (c.save a j).run fs = ((a.enter (c.path a) bytes (c.change a bytes)).run fs).map
      (·.map fun _ => c.path a) id := by
  cases c with
  | tensor case role t =>
    rw [Cargo.save, saveTensor_silent hj]
    rw [Cargo.bytes] at h
    obtain ⟨_, hc, h⟩ := bind_eq_ok_iff.mp h
    exact stageTensor_run hc h fs
  | model source =>
    rw [Cargo.save, saveModel_silent hj]
    exact stageModel_run (mapError_eq_ok_iff.mp h) fs

/-- A staging call fails in one of three ways: it is refused, the file cannot be written, or the
manifest cannot be read once the file is. -/
inductive Fails (a : Area) (c : Cargo) (fs : Files) : Files → Prop where
  /-- The directory was not touched. -/
  | refused : Fails a c fs fs
  /-- Directories were made at most. -/
  | unwritten {fs' : Files} : fs.Grows (OnPath a.root) fs' → Fails a c fs fs'
  /-- The file was written. -/
  | unrecorded {bytes : Bytes} {e : Failure} {stored : Files} : c.bytes a = .ok bytes →
      (a.writeFile (c.path a) bytes).run fs = (.ok (), stored) →
      a.Stored (c.path a) bytes fs stored →
      a.readManifest.run stored = (.error e, stored) → Fails a c fs stored

theorem fails_of_error (hj : j.path = none) (h : (c.save a j).run fs = (.error e, fs')) :
    a.Fails c fs fs' := by
  cases hbytes : c.bytes a with
  | error cause =>
    obtain ⟨e', he⟩ := save_refused hj (fun bytes hb => by rw [hbytes] at hb; cases hb) fs
    rw [h] at he
    cases he
    exact .refused
  | ok bytes =>
    rw [save_run hj hbytes] at h
    rcases a.writeFile_ends (c.path a) bytes fs with ⟨e', grown, hw, hg⟩ | ⟨stored, hw, hst⟩
    · rw [enter, Action.run_bind_of_error hw] at h
      cases h
      exact .unwritten hg
    · rw [enter, Action.run_bind_of_ok hw] at h
      rcases a.lists_or_fails stored with ⟨m, hm⟩ | ⟨e', he⟩
      · rw [updateManifest_of_lists hm hst.stands] at h
        cases h
      · rw [updateManifest_of_fails he] at h
        cases h
        exact .unrecorded hbytes hw hst he

/-- Below the root there are the same files. -/
def KeepsFiles (a : Area) (fs fs' : Files) : Prop :=
  ∀ loc, Files.isBelow (location a.root) loc = true → ∀ bytes,
    fs'.get? loc = some (.file bytes) ↔ fs.get? loc = some (.file bytes)

/-- A staging call writes its file, which is not there yet, and then cannot read the manifest. -/
structure Unsettles (a : Area) (c : Cargo) (fs : Files) (bytes : Bytes) (stored : Files)
    (e : Failure) : Prop where
  /-- The bytes of the file. -/
  encoded : c.bytes a = .ok bytes
  /-- The file is written. -/
  written : (a.writeFile (c.path a) bytes).run fs = (.ok (), stored)
  /-- The manifest cannot be read. -/
  unreadable : a.readManifest.run stored = (.error e, stored)
  /-- The file is below the root. -/
  below : Files.isBelow (location a.root) (location (c.path a)) = true
  /-- It was not there with these bytes. -/
  fresh : fs.get? (location (c.path a)) ≠ some (.file bytes)

theorem Unsettles.isStored (h : a.Unsettles c fs bytes stored e) :
    a.Stored (c.path a) bytes fs stored := by
  rcases a.writeFile_ends (c.path a) bytes fs with ⟨e', grown, hw, -⟩ | ⟨stored', hw, hst⟩
  · rw [h.written] at hw
    cases hw
  · rw [h.written] at hw
    cases hw
    exact hst

/-- A call that unsettles the directory fails, and the file is there. -/
theorem Unsettles.run (h : a.Unsettles c fs bytes stored e) (hj : j.path = none) :
    (c.save a j).run fs = (.error e, stored) ∧
      stored.get? (location (c.path a)) = some (.file bytes) := by
  have hstored := h.isStored
  have henter : (a.enter (c.path a) bytes (c.change a bytes)).run fs = (.error e, stored) := by
    rw [enter, Action.run_bind_of_ok h.written, updateManifest_of_fails h.unreadable]
  refine ⟨?_, hstored.get?_location⟩
  rw [save_run hj h.encoded, henter]
  rfl

/-- Where there is no manifest no call unsettles the directory, unless it writes in its place. -/
theorem not_unsettles_of_none (ha : Files.admits a.root manifestName = .ok ())
    (hup : ¬ OnPath a.root a.manifestSpot) (hnone : fs.get? a.manifestSpot = none)
    (hpath : location (c.path a) ≠ a.manifestSpot) : ¬ a.Unsettles c fs bytes stored e := by
  intro h
  have hvacant : stored.get? a.manifestSpot = none :=
    (h.isStored.elsewhere hup hpath.symm).trans hnone
  have hmissing : stored.read a.manifestPath = .error .notFound := by
    rw [manifestSpot] at hvacant
    rw [manifestPath_eq, h.isStored.stands.read_join isName_manifest, ha, hvacant]
    rfl
  have hread : a.readManifest.run stored = (.ok .empty, stored) :=
    lists_iff.mpr (.inr ⟨hmissing, rfl⟩)
  rw [h.unreadable] at hread
  cases hread

/-- In a standing area whose manifest can be read no call unsettles the directory, unless it writes
in place of the manifest. -/
theorem not_unsettles_of_lists (hs : fs.Stands a.root) {m : Manifest} (hl : a.Lists fs m)
    (hpath : location (c.path a) ≠ a.manifestSpot) : ¬ a.Unsettles c fs bytes stored e := by
  intro h
  have hmake := hs.makeDirectories (checkPath_of_admits isName_manifest (hl.admits hs))
  have hfirst : (Action.attempt a.root (·.makeDirectories a.root)).run fs = (.ok (), fs) := by
    rw [Action.run_attempt, hmake]
    rfl
  have hwritten := h.written
  rw [writeFile, Action.run_bind_of_ok hfirst] at hwritten
  have hplaced := Files.write_placed (Action.run_edit_eq_ok hwritten)
  have hsame : stored.get? a.manifestSpot = fs.get? a.manifestSpot := by
    rw [hplaced.same, Files.get?_set fs hplaced.below, if_neg hpath.symm]
  have hread : a.readManifest.run stored = (.ok m, stored) :=
    hl.congr hs (hplaced.spares.stands hs) hsame
  rw [h.unreadable] at hread
  cases hread

/-- A staging call that fails leaves the files below the root as they were, except when it writes
its file, new or with new bytes, and then cannot read the manifest. In any case no other file
changes, and the file is either as it was or the staged one. In a standing area whose manifest can
be read, and in one without a manifest, the exception does not occur. -/
theorem failed_save_exact (hj : j.path = none) (a : Area) (c : Cargo) (fs : Files) :
    ((∀ e fs', (c.save a j).run fs = (.error e, fs') → a.KeepsFiles fs fs') ↔
      ¬ ∃ bytes stored e, a.Unsettles c fs bytes stored e) ∧
    (∀ e fs', (c.save a j).run fs = (.error e, fs') →
      fs.Spares (· = location (c.path a)) fs' ∧
        (fs.Spares (fun _ => False) fs' ∨ ∃ bytes, c.bytes a = .ok bytes ∧
          fs'.get? (location (c.path a)) = some (.file bytes))) ∧
    (location (c.path a) ≠ a.manifestSpot →
      (fs.Stands a.root ∧ ∃ m, a.Lists fs m) ∨
        (Files.admits a.root manifestName = .ok () ∧ ¬ OnPath a.root a.manifestSpot ∧
          fs.get? a.manifestSpot = none) →
      ¬ ∃ bytes stored e, a.Unsettles c fs bytes stored e) := by
  refine ⟨⟨fun hkeeps hunsettles => ?_, fun hsettled e fs' hrun => ?_⟩, fun e fs' hrun => ?_,
    fun hpath hread hunsettles => ?_⟩
  · obtain ⟨bytes, stored, e, h⟩ := hunsettles
    obtain ⟨hrun, hfile⟩ := h.run hj
    exact h.fresh ((hkeeps e stored hrun _ h.below bytes).mp hfile)
  · intro loc hbelow found
    cases fails_of_error hj hrun with
    | refused => exact Iff.rfl
    | unwritten hg =>
      have hsame : fs.Spares (fun _ => False) fs' := hg.spares
      exact hsame.file loc id found
    | @unrecorded bytes e _ hbytes hw hst he =>
      by_cases hloc : loc = location (c.path a)
      · have hthere : fs.get? loc = some (.file bytes) := by
          by_contra hfresh
          rw [hloc] at hbelow hfresh
          exact hsettled ⟨bytes, fs', e, hbytes, hw, he, hbelow, hfresh⟩
        rw [hthere, hloc, hst.get?_location]
      · exact hst.spares.file loc hloc found
  · cases fails_of_error hj hrun with
    | refused => exact ⟨.refl _ _, .inl (.refl _ _)⟩
    | unwritten hg => exact ⟨hg.spares, .inl hg.spares⟩
    | unrecorded hbytes hw hst he => exact ⟨hst.spares, .inr ⟨_, hbytes, hst.get?_location⟩⟩
  · obtain ⟨bytes, stored, e, h⟩ := hunsettles
    rcases hread with ⟨hs, m, hm⟩ | ⟨ha, hup, hnone⟩
    · exact not_unsettles_of_lists hs hm hpath h
    · exact not_unsettles_of_none ha hup hnone hpath h

/-! ## A directory with a broken manifest -/

/-- An area with raw tensor files. -/
def rawArea : Area := ⟨"w", .raw⟩

/-- The directory of the area with a manifest that is no document. -/
def broken : Files :=
  (Files.empty.set ["w"] .directory).set ["w", manifestName] (.file [0x5b])

/-- A byte as the input of a case. -/
def byteCargo : Cargo := .tensor "test" .input ⟨[1], .u8 [7]⟩

/-- With a broken manifest a byte for a case that is no name is not staged either, and every file is
as it was. -/
theorem broken_kept : ∃ e, ((Cargo.tensor "a/b" .input ⟨[1], .u8 [7]⟩).save rawArea {}).run broken =
      (.error e, broken) ∧
    ∀ e fs', ((Cargo.tensor "a/b" .input ⟨[1], .u8 [7]⟩).save rawArea {}).run broken =
      (.error e, fs') → rawArea.KeepsFiles broken fs' := by
  have hbytes : ∀ bytes, (Cargo.tensor "a/b" .input ⟨[1], .u8 [7]⟩).bytes rawArea ≠ .ok bytes :=
    fun bytes hok => by
      have hunfit : (checkCase "a/b").isOk = false := by decide
      rw [Cargo.bytes] at hok
      cases hc : checkCase "a/b" with
      | error e =>
        rw [hc] at hok
        cases hok
      | ok _ =>
        rw [hc] at hunfit
        cases hunfit
  refine ⟨_, (save_refused rfl hbytes broken).choose_spec, ?_⟩
  refine (failed_save_exact rfl rawArea _ broken).1.mpr fun hunsettles => ?_
  obtain ⟨bytes, stored, e, h⟩ := hunsettles
  exact hbytes bytes h.encoded

set_option maxRecDepth 10000 in
/-- With a broken manifest staging a byte fails, and its file is new. -/
theorem broken_unsettled :
    ((byteCargo.save rawArea {}).run broken).1.toOption = none ∧
    broken.get? ["w", "test.input.bin"] = none ∧
    ((byteCargo.save rawArea {}).run broken).2.get? ["w", "test.input.bin"] = some (.file [7]) ∧
    ¬ rawArea.KeepsFiles broken ((byteCargo.save rawArea {}).run broken).2 := by
  have hrun : ((byteCargo.save rawArea {}).run broken).1.toOption = none ∧
      broken.get? ["w", "test.input.bin"] = none ∧
      ((byteCargo.save rawArea {}).run broken).2.get? ["w", "test.input.bin"] =
        some (.file [7]) := by
    decide +kernel
  obtain ⟨hfails, hnew, hfile⟩ := hrun
  refine ⟨hfails, hnew, hfile, fun hkeeps => ?_⟩
  have hbefore := (hkeeps ["w", "test.input.bin"] (by decide) [7]).mp hfile
  rw [hnew] at hbefore
  cases hbefore

end Area

end NetTrial
