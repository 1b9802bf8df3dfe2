import Mathlib.Logic.Function.Basic
import NetTrial.Proofs.Confinement
import NetTrial.Proofs.Deliveries
/-!
# Stocked areas

An area is stocked when it stands, lists a manifest, and it is known of each of its entries
whether a file is there and which bytes it holds. What is staged in a stocked area is done when
its names can be spoken of, and leaves it stocked: what was written is there, what was removed is
not, and nothing else has changed. So a run of steps is followed by what the entries hold, and
no document has to be written out or read. A journal that can be continued makes no difference.
-/

namespace NetTrial

open NetTrial.Path Text Digest NetTrial.Action

namespace Area

variable {a : Area} {fs fs' : Files} {m : Manifest} {content : String → Option Bytes}
  {name : String} {bytes : Bytes}

/-! ## Empty directories -/

/-- The directory of an area stands and holds nothing. -/
structure Vacant (a : Area) (fs : Files) : Prop where
  /-- The root is a directory. -/
  stands : fs.Stands a.root
  /-- Nothing is below it. -/
  below : ∀ loc, Files.isBelow (location a.root) loc = true → fs.get? loc = none

/-- Clearing a directory, or where nothing is, leaves an empty one, unless the path of the root
moves up. -/
theorem vacant_of_reset (hup : ".." ∉ pieces a.root)
    (hstart : a.Leads fs ∨ ∀ loc, Files.isBelow (location a.root) loc = true → fs.get? loc = none)
    (h : a.reset.run fs = (.ok (), fs')) : a.Vacant fs' := by
  obtain ⟨hstands, swept, hgrows, hbelow⟩ := reset_ok h
  refine ⟨hstands, fun loc hb => ?_⟩
  have hnone : swept.get? loc = none := by
    by_cases hl : a.Leads fs
    · exact (hbelow loc hb).1 hl
    · rw [(hbelow loc hb).2 hl]
      exact hstart.resolve_left hl loc hb
  refine (hgrows.fresh loc hnone).resolve_right fun hmade => ?_
  -- A path that does not move up passes only what is above the root.
  obtain ⟨hbelow, hne⟩ := Files.isBelow_iff.mp hb
  exact hne ((onPath_isInitial hup hmade.1).eq_of_length_le hbelow.length_le)

/-- So does clearing where no file is yet. -/
theorem vacant_of_empty (hup : ".." ∉ pieces a.root) (h : a.reset.run .empty = (.ok (), fs')) :
    a.Vacant fs' := by
  refine vacant_of_reset hup (Or.inr fun loc hb => ?_) h
  rw [Files.get?, if_neg (Files.ne_nil_of_isBelow hb)]
  rfl

theorem isBelow_entry (front : Location) (name : String) :
    Files.isBelow front (front ++ [name]) = true :=
  Files.isBelow_iff.mpr ⟨List.prefix_append _ _, by simp⟩

/-- Nothing is listed in an empty directory. -/
theorem Vacant.lists (h : a.Vacant fs) (ha : Files.admits a.root manifestName = .ok ()) :
    a.Lists fs .empty := by
  have hread := h.stands.read_join isName_manifest
  have hnone : fs.get? (location a.root ++ [manifestName]) = none :=
    h.below _ a.isBelow_manifestSpot
  rw [ha, hnone] at hread
  exact lists_iff.mpr (Or.inr ⟨hread, rfl⟩)

/-! ## Entries -/

/-- An entry that can be spoken of and is not the manifest. -/
structure Offers (a : Area) (name : String) : Prop where
  /-- It has a name. -/
  isName : IsName name
  /-- It is not the manifest. -/
  apart : name ≠ manifestName
  /-- Its path can be spoken of. -/
  admitted : Files.admits a.root name = .ok ()

theorem offers_tensorFile {case : String} {role : Role} (hc : checkCase case = .ok ())
    (ha : Files.admits a.root (a.tensorFile case role) = .ok ()) :
    a.Offers (a.tensorFile case role) :=
  ⟨a.isName_tensorFile (checkCase_ok hc).1 role, a.tensorFile_ne_fixed manifest_fixed case role, ha⟩

theorem offers_artifact (ha : Files.admits a.root artifactName = .ok ()) :
    a.Offers artifactName := ⟨isName_artifact, by decide, ha⟩

/-- An entry that can be spoken of holds a file. -/
def Stores (a : Area) (content : String → Option Bytes) (name : String) : Prop :=
  a.Offers name ∧ (content name).isSome = true

theorem Offers.stores (h : a.Offers name) (content : String → Option Bytes) (bytes : Bytes) :
    a.Stores (Function.update content name (some bytes)) name :=
  ⟨h, by rw [Function.update_self]; rfl⟩

theorem Stores.update (h : a.Stores content name) {other : String} (hne : name ≠ other)
    (value : Option Bytes) : a.Stores (Function.update content other value) name :=
  ⟨h.1, by rw [Function.update_of_ne hne]; exact h.2⟩

/-- A standing area that lists a manifest, and what its other entries hold. -/
structure Stocked (a : Area) (fs : Files) (m : Manifest) (content : String → Option Bytes) :
    Prop where
  /-- The area stands. -/
  stands : fs.Stands a.root
  /-- It lists the manifest. -/
  lists : a.Lists fs m
  /-- An entry is a file with the bytes that are known of it, or nothing. -/
  entry : ∀ name, name ≠ manifestName →
    fs.get? (location a.root ++ [name]) = (content name).map .file

/-- An empty directory is stocked with nothing. -/
theorem Vacant.stocked (h : a.Vacant fs) (ha : Files.admits a.root manifestName = .ok ()) :
    a.Stocked fs .empty fun _ => none :=
  ⟨h.stands, h.lists ha, fun name _ => h.below _ (isBelow_entry _ name)⟩

namespace Stocked

theorem of_root {root : String} {format format' : DatasetFormat}
    (h : Stocked ⟨root, format⟩ fs m content) : Stocked ⟨root, format'⟩ fs m content :=
  ⟨h.stands, h.lists, h.entry⟩

theorem read (h : a.Stocked fs m content) (hn : a.Offers name) (hc : content name = some bytes) :
    fs.read (join a.root name) = .ok bytes := by
  rw [Files.read_join_eq_ok hn.isName]
  refine ⟨h.stands, hn.admitted, ?_⟩
  rw [h.entry name hn.apart, hc]
  rfl

theorem exists_read (h : a.Stocked fs m content) (hn : a.Stores content name) :
    ∃ bytes, fs.read (join a.root name) = .ok bytes := by
  obtain ⟨bytes, hc⟩ := Option.isSome_iff_exists.mp hn.2
  exact ⟨bytes, h.read hn.1 hc⟩

theorem isFile (h : a.Stocked fs m content) (hn : a.Stores content name) :
    fs.isFile (join a.root name) = true := Files.isFile_iff.mpr (h.exists_read hn)

theorem no_directory (h : a.Stocked fs m content) (hne : name ≠ manifestName) :
    fs.get? (location a.root ++ [name]) ≠ some .directory := by
  rw [h.entry name hne]
  cases content name <;> simp

theorem not_isFile (h : a.Stocked fs m content) (hn : a.Offers name) (hc : content name = none) :
    fs.isFile (join a.root name) = false := by
  rw [Bool.eq_false_iff]
  intro hf
  obtain ⟨-, -, bytes, hget⟩ := (Files.isFile_join_iff hn.isName).mp hf
  rw [h.entry name hn.apart, hc] at hget
  cases hget

/-- What a step leaves alone in the directory stays in stock. -/
theorem of_leaves (h : a.Stocked fs m content) (hl : Journal.Leaves (location a.root) fs fs') :
    a.Stocked fs' m content := by
  have hstands : fs'.Stands a.root := h.stands.mono hl.directory
  refine ⟨hstands, h.lists.congr h.stands hstands (hl.same _ (List.prefix_append _ _)), ?_⟩
  intro name hne
  rw [hl.same _ (List.prefix_append _ _), h.entry name hne]

/-! ## One entry or the manifest changes -/

/-- What stands at other entries is not changed with one of them. -/
theorem of_same (h : a.Stocked fs m content) (hs : fs'.Stands a.root) {value : Option Bytes}
    (hne : name ≠ manifestName) (hat : fs'.get? (location a.root ++ [name]) = value.map .file)
    (hsame : ∀ loc, loc ≠ location a.root ++ [name] → fs'.get? loc = fs.get? loc) :
    a.Stocked fs' m (Function.update content name value) where
  stands := hs
  lists := h.lists.congr h.stands hs (hsame _ (entry_ne hne.symm))
  entry other hother := by
    by_cases he : other = name
    · subst he
      rw [hat, Function.update_self]
    · rw [hsame _ (entry_ne he), h.entry other hother, Function.update_of_ne he]

theorem put (h : a.Stocked fs m content) (hne : name ≠ manifestName) (bytes : Bytes) :
    a.Stocked (fs.set (location a.root ++ [name]) (.file bytes)) m
      (Function.update content name (some bytes)) := by
  refine h.of_same (stands_set_entry h.stands (h.no_directory hne) bytes) hne ?_ fun loc hl => ?_
  · rw [Files.get?_set fs (by simp), if_pos rfl]
    rfl
  · rw [Files.get?_set fs (by simp), if_neg hl]

theorem withManifest (h : a.Stocked fs m content) {m' : Manifest} (hm : m'.Fits) :
    a.Stocked (a.withManifest fs m') m' content where
  stands := withManifest_stands h.lists h.stands m'
  lists := withManifest_lists h.lists h.stands hm
  entry name hne := by
    have hspot : location a.root ++ [name] ≠ a.manifestSpot := entry_ne hne
    rw [withManifest_get?, if_neg hspot, h.entry name hne]

/-- A file is written and recorded. -/
theorem enter (h : a.Stocked fs m content) (hn : a.Offers name) (bytes : Bytes)
    (change : Manifest → Manifest) (hm : (change m).Fits) :
    ∃ fs', (a.enter (join a.root name) bytes change).run fs = (.ok (), fs') ∧
      a.Stocked fs' (change m) (Function.update content name (some bytes)) :=
  ⟨_, enter_of_lists h.stands h.lists hn.apart (h.no_directory hn.apart) bytes hn.isName
    hn.admitted change, (h.put hn.apart bytes).withManifest hm⟩

/-- A file that may be there is removed. -/
theorem removeStale (h : a.Stocked fs m content) (hn : a.Offers name) :
    ∃ fs', (removeStale (join a.root name)).run fs = (.ok (), fs') ∧
      a.Stocked fs' m (Function.update content name none) := by
  have hrun : ∃ fs', (Area.removeStale (join a.root name)).run fs = (.ok (), fs') := by
    rw [Area.removeStale, run_get_bind, h.stands.removeFile_join hn.isName, hn.admitted,
      h.entry name hn.apart]
    cases content name <;> exact ⟨_, rfl⟩
  obtain ⟨fs', hrun⟩ := hrun
  have hfrees := removeStale_frees h.stands hn.isName hrun
  exact ⟨fs', hrun, h.of_same (hfrees.spares.stands h.stands) hn.apart hfrees.gone hfrees.same⟩

/-- A file is written past the manifest. -/
theorem write (h : a.Stocked fs m content) (hn : a.Offers name) (bytes : Bytes) :
    ∃ fs', fs.write (join a.root name) bytes = .ok fs' ∧
      a.Stocked fs' m (Function.update content name (some bytes)) := by
  refine ⟨_, ?_, h.put hn.apart bytes⟩
  rw [h.stands.write_join hn.isName, hn.admitted]
  exact if_neg (h.no_directory hn.apart)

/-- What a tool delivers to a free entry is there. -/
theorem deliver (h : a.Stocked fs m content) (hn : a.Offers name) (hfree : content name = none)
    (output : Option Bytes) :
    a.Stocked (Launcher.deliver (join a.root name) fs output) m
      (Function.update content name output) := by
  cases output with
  | none =>
    have hsame : Function.update content name none = content := by
      rw [← hfree, Function.update_eq_self]
    rw [hsame]
    exact h
  | some bytes =>
    obtain ⟨fs', hwrite, hwritten⟩ := h.write hn bytes
    rw [Launcher.deliver, hwrite]
    exact hwritten

/-! ## Staging -/

theorem stageModel (h : a.Stocked fs m content) {source : ModelSource}
    (hb : source.serialized = .ok bytes) (hn : a.Offers (modelFile source.format)) :
    ∃ fs', (a.stageModel source).run fs = (.ok (a.modelPath source), fs') ∧
      a.Stocked fs' { m with model := some (modelEntryOf source bytes) }
        (Function.update content (modelFile source.format) (some bytes)) := by
  obtain ⟨fs', hrun, hstocked⟩ := h.enter hn bytes
    (fun m => { m with model := some (modelEntryOf source bytes) }) (h.lists.fits.withModel _)
  refine ⟨fs', ?_, hstocked⟩
  rw [stageModel_run hb, modelPath, hrun]
  rfl

theorem stageTensor (h : a.Stocked fs m content) {case : String} {role : Role} {t : Tensor}
    (hc : checkCase case = .ok ()) (hb : a.fileBytes case role t = .ok bytes)
    (ha : Files.admits a.root (a.tensorFile case role) = .ok ()) (ht : t.shape.Fits) :
    ∃ fs', (a.stageTensor case role t).run fs = (.ok (a.tensorPath case role), fs') ∧
      a.Stocked fs' (m.record (a.entryOf case role t bytes))
        (Function.update content (a.tensorFile case role) (some bytes)) := by
  obtain ⟨fs', hrun, hstocked⟩ := h.enter (offers_tensorFile hc ha) bytes
    (·.record (a.entryOf case role t bytes)) (h.lists.fits.record (fits_entryOf ht bytes))
  refine ⟨fs', ?_, hstocked⟩
  rw [stageTensor_run hc hb, tensorPath, hrun]
  rfl

/-- A file that a tool wrote is recorded. -/
theorem recordExternal (h : a.Stocked fs m content) {case : String} {role : Role}
    {kind : ElementType} {told : Option Shape × ElementType} (hc : checkCase case = .ok ())
    (ha : Files.admits a.root (a.tensorFile case role) = .ok ())
    (hcontent : content (a.tensorFile case role) = some bytes)
    (hd : a.describe (a.tensorPath case role) bytes kind = .ok told) :
    ∃ fs', (a.recordExternal case role kind).run fs =
        (.ok (a.externalEntry case role told bytes), fs') ∧
      a.Stocked fs' (m.record (a.externalEntry case role told bytes)) content := by
  refine ⟨_, ?_, h.withManifest (h.lists.fits.record (fits_externalEntry hd bytes))⟩
  rw [recordExternal_run hc (h.read (offers_tensorFile hc ha) hcontent) hd,
    updateManifest_of_lists h.lists h.stands]
  rfl

end Stocked

/-! ## What was staged and collected -/

/-- A tensor is on record as staged, and its file is there. -/
def Staged (a : Area) (case : String) (role : Role) (t : Tensor) (m : Manifest)
    (content : String → Option Bytes) : Prop :=
  ∃ bytes, a.fileBytes case role t = .ok bytes ∧
    m.tensor? case role = some (a.entryOf case role t bytes) ∧
    content (a.tensorFile case role) = some bytes

section Staged

variable {case : String} {role : Role} {t : Tensor}

theorem staged_record (hb : a.fileBytes case role t = .ok bytes) (m : Manifest)
    (content : String → Option Bytes) :
    a.Staged case role t (m.record (a.entryOf case role t bytes))
      (Function.update content (a.tensorFile case role) (some bytes)) :=
  ⟨bytes, hb, m.tensor?_record _, Function.update_self ..⟩

/-- Another record leaves a tensor staged. -/
theorem Staged.record (h : a.Staged case role t m content) {e : TensorEntry}
    (hother : ¬ (e.case = case ∧ e.role = role)) : a.Staged case role t (m.record e) content := by
  obtain ⟨bytes, hb, hm, hcontent⟩ := h
  exact ⟨bytes, hb, by rw [m.tensor?_record_of_ne hother, hm], hcontent⟩

/-- A change to another entry leaves a tensor staged. -/
theorem Staged.update (h : a.Staged case role t m content) (hne : a.tensorFile case role ≠ name)
    (value : Option Bytes) : a.Staged case role t m (Function.update content name value) := by
  obtain ⟨bytes, hb, hm, hcontent⟩ := h
  exact ⟨bytes, hb, hm, by rw [Function.update_of_ne hne, hcontent]⟩

/-- What is expected stays staged when a candidate is collected. -/
theorem Staged.collect (h : a.Staged case .expected t m content) (bytes : Bytes)
    (told : Option Shape × ElementType) :
    a.Staged case .expected t (m.record (a.externalEntry case .candidate told bytes))
      (Function.update content (a.tensorFile case .candidate) (some bytes)) := by
  refine Staged.record ?_ (by simp [externalEntry])
  exact h.update (fun he => absurd (tensorFile_inj he).2.1 (by decide)) _

/-- What is staged can be loaded. -/
theorem Stocked.loadTensor (h : a.Stocked fs m content) (hc : checkCase case = .ok ())
    (ha : Files.admits a.root (a.tensorFile case role) = .ok ())
    (ht : a.Staged case role t m content) (hr : t.Representable) :
    (a.loadTensor case role).run fs = (.ok t, fs) := by
  obtain ⟨bytes, hb, hm, hcontent⟩ := ht
  exact loadTensor_eq_ok.mpr ⟨rfl, m, _, bytes, h.lists, hm,
    h.read (offers_tensorFile hc ha) hcontent, decodeEntry_entryOf hr hb⟩

theorem Stocked.expects (h : a.Stocked fs m content) (hc : checkCase case = .ok ())
    (ha : Files.admits a.root (a.tensorFile case .expected) = .ok ())
    (ht : a.Staged case .expected t m content) : a.Expects fs case t := by
  obtain ⟨bytes, hb, hm, hcontent⟩ := ht
  refine ⟨hc, h.stands, ha, m, bytes, h.lists, hm, hb, ?_⟩
  rw [tensorPath, location_join a.root (a.isName_tensorFile (checkCase_ok hc).1 .expected),
    h.entry _ (a.tensorFile_ne_fixed manifest_fixed case .expected), hcontent]
  rfl

theorem Stocked.collected (h : a.Stocked fs m content) {told : Option Shape × ElementType}
    (hc : checkCase case = .ok ())
    (ha : Files.admits a.root (a.tensorFile case .candidate) = .ok ())
    (hd : a.describe (a.tensorPath case .candidate) bytes .f32 = .ok told)
    (hm : m.tensor? case .candidate = some (a.externalEntry case .candidate told bytes))
    (hcontent : content (a.tensorFile case .candidate) = some bytes) :
    a.Collected fs case told bytes :=
  ⟨⟨m, h.lists, hm⟩, hd, h.read (offers_tensorFile hc ha) hcontent⟩

end Staged

end Area

/-! ## Lines behind the steps -/

namespace Journal

variable {σ α : Type} {j : Journal} {root step : String} {opened : Files → Prop} {fs : Files}
  {b : Bench σ}

/-- A line can be put behind the journal; that leaves a directory alone, and something is true of
the files afterwards. -/
def Continues (j : Journal) (root : String) (opened : Files → Prop) (fs : Files) : Prop :=
  ∀ line, ((j.append line).run fs).1 = .ok () ∧
    Leaves (location root) fs ((j.append line).run fs).2 ∧ opened ((j.append line).run fs).2

/-- A journal that can be continued while something is true of the files: lines keep it true, and
so do changes in a directory. -/
structure Attended (j : Journal) (root : String) (opened : Files → Prop) : Prop where
  /-- A line can be put behind it. -/
  continues : ∀ {fs}, opened fs → j.Continues root opened fs
  /-- Changes in the directory keep it so. -/
  within : ∀ {fs fs'}, fs.Within root fs' → opened fs → opened fs'

theorem continues_of_silent (hj : j.path = none) (root : String) (fs : Files) :
    j.Continues root (fun _ => True) fs := by
  intro line
  rw [append_silent hj]
  exact ⟨rfl, ⟨fun _ _ => rfl, fun _ hd => hd⟩, trivial⟩

theorem attended_of_silent (hj : j.path = none) (root : String) :
    j.Attended root fun _ => True :=
  ⟨fun _ => continues_of_silent hj root _, fun _ _ => trivial⟩

theorem Continues.closes {logged : Except Failure α × Files} {value : α}
    (h : j.Continues root opened fs) (hc : j.Closes step (.ok value, fs) logged) :
    ∃ fs', logged = (.ok value, fs') ∧ Leaves (location root) fs fs' ∧ opened fs' := by
  obtain ⟨line, -, rfl⟩ := hc
  obtain ⟨hok, hleaves, hopen⟩ := h line
  exact ⟨_, by rw [hok, verdict_written], hleaves, hopen⟩

theorem Continues.closesOnBench {logged : Except Failure α × Bench σ} {value : α}
    (h : j.Continues root opened b.files) (hc : j.ClosesOnBench step (.ok value, b) logged) :
    ∃ fs', logged = (.ok value, { b with files := fs' }) ∧ Leaves (location root) b.files fs' ∧
      opened fs' := by
  obtain ⟨line, -, rfl⟩ := hc
  obtain ⟨hok, hleaves, hopen⟩ := h line
  exact ⟨_, by rw [hok, verdict_written], hleaves, hopen⟩

end Journal

namespace Area.Stocked

variable {a : Area} {m : Manifest} {content : String → Option Bytes} {j : Journal}
  {opened : Files → Prop} {fs : Files} {bytes : Bytes}

theorem saveModel (h : a.Stocked fs m content) (hj : j.Attended a.root opened) (hopen : opened fs)
    {source : ModelSource} (hb : source.serialized = .ok bytes)
    (hn : a.Offers (modelFile source.format)) :
    ∃ path fs', (a.saveModel j source).run fs = (.ok path, fs') ∧ opened fs' ∧
      a.Stocked fs' { m with model := some (modelEntryOf source bytes) }
        (Function.update content (modelFile source.format) (some bytes)) := by
  obtain ⟨fs₁, hrun, hstocked⟩ := h.stageModel hb hn
  have hwithin := stageModel_within h.stands source hn.isName
  have hcloses := a.saveModel_closes j source fs
  rw [hrun] at hwithin hcloses
  obtain ⟨fs', hlogged, hleaves, hopen'⟩ :=
    (hj.continues (hj.within hwithin hopen)).closes hcloses
  exact ⟨_, fs', hlogged, hopen', hstocked.of_leaves hleaves⟩

theorem saveTensor (h : a.Stocked fs m content) (hj : j.Attended a.root opened)
    (hopen : opened fs) {case : String} {role : Role} {t : Tensor} (hc : checkCase case = .ok ())
    (hb : a.fileBytes case role t = .ok bytes)
    (ha : Files.admits a.root (a.tensorFile case role) = .ok ()) (ht : t.shape.Fits) :
    ∃ path fs', (a.saveTensor j case role t).run fs = (.ok path, fs') ∧ opened fs' ∧
      a.Stocked fs' (m.record (a.entryOf case role t bytes))
        (Function.update content (a.tensorFile case role) (some bytes)) := by
  obtain ⟨fs₁, hrun, hstocked⟩ := h.stageTensor hc hb ha ht
  have hwithin := stageTensor_within h.stands case role t
  have hcloses := a.saveTensor_closes j case role t fs
  rw [hrun] at hwithin hcloses
  obtain ⟨fs', hlogged, hleaves, hopen'⟩ :=
    (hj.continues (hj.within hwithin hopen)).closes hcloses
  exact ⟨_, fs', hlogged, hopen', hstocked.of_leaves hleaves⟩

end Area.Stocked

end NetTrial
