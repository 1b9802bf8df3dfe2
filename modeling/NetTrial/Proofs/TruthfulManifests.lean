import NetTrial.Proofs.Journals
import NetTrial.Proofs.ModelFiles
import NetTrial.Proofs.Sessions
/-!
# Manifests that tell the truth

Staging writes a file and then its record, and either can fail on its own. Yet as long as nothing
but staging touches a directory its manifest, if there is one, tells what is there: each entry
names a file of its own after case, role and format, and each recorded digest is that of a file
that can be read. Every staging call keeps this, in either format and however it ends; only a
clearing that leaves something in place of the manifest can make it wrong from the start.
-/

namespace NetTrial

open NetTrial.Path Text NetTrial.Action

/-! ## Entries with files of their own -/

/-- An entry whose case may be staged, and whose file is named after case, role and format. -/
structure TensorEntry.Named (e : TensorEntry) : Prop where
  /-- The case may be staged. -/
  case_ok : Area.checkCase e.case = .ok ()
  /-- The file has the name that its format gives it. -/
  file : ∃ format : DatasetFormat, e.format = format.name ∧
    e.file = e.case ++ "." ++ e.role.stem ++ "." ++ format.extension

namespace TensorEntry

variable {e e' : TensorEntry}

/-- The file of a named entry is the tensor file of an area with its format. -/
theorem Named.tensorFile (h : e.Named) (root : String) :
    ∃ a : Area, a.root = root ∧ e.file = a.tensorFile e.case e.role := by
  obtain ⟨format, -, hfile⟩ := h.file
  exact ⟨⟨root, format⟩, rfl, hfile⟩

theorem Named.isName (h : e.Named) : IsName e.file := by
  obtain ⟨a, -, hfile⟩ := h.tensorFile ""
  rw [hfile]
  exact a.isName_tensorFile (Area.checkCase_ok h.case_ok).1 e.role

/-- Entries that name one file are for one case and role. -/
theorem Named.of_file (h : e.Named) (h' : e'.Named) (hfile : e.file = e'.file) :
    e.case = e'.case ∧ e.role = e'.role := by
  obtain ⟨a, -, ha⟩ := h.tensorFile ""
  obtain ⟨b, -, hb⟩ := h'.tensorFile ""
  rw [ha, hb] at hfile
  obtain ⟨hcase, hrole, -⟩ := Area.tensorFile_inj hfile
  exact ⟨hcase, hrole⟩

end TensorEntry

/-- An entry of a model whose file is named after its extension, which has no dot. -/
def ModelEntry.Named (e : ModelEntry) : Prop :=
  ∃ format : ModelFormat, '.' ∉ format.extension.toList ∧ e.file = Area.modelFile format

theorem ModelEntry.Named.file_ne {model : ModelEntry} {e : TensorEntry} (h : model.Named)
    (he : e.Named) : model.file ≠ e.file := by
  obtain ⟨format, hdot, hfile⟩ := h
  obtain ⟨a, -, ha⟩ := he.tensorFile ""
  rw [hfile, ha]
  exact Area.modelFile_ne_tensorFile hdot a e.case e.role

/-- One entry at most for each case and role, and every entry names a file of its own. -/
structure Manifest.Orderly (m : Manifest) : Prop where
  /-- No case and role has two entries. -/
  once : m.tensors.Pairwise fun e e' => ¬ (e.case = e'.case ∧ e.role = e'.role)
  /-- No file has two entries. -/
  files : m.tensors.Pairwise fun e e' => e.file ≠ e'.file
  /-- The file of the model has no other entry. -/
  apart : ∀ model, m.model = some model → ∀ e ∈ m.tensors, model.file ≠ e.file
  /-- Files are named after case, role and format. -/
  named : ∀ e ∈ m.tensors, e.Named
  /-- The model is named after its extension. -/
  model : ∀ model, m.model = some model → model.Named

namespace Manifest

variable {m : Manifest} {e : TensorEntry}

theorem orderly_empty : Manifest.empty.Orderly := ⟨.nil, .nil, nofun, nofun, nofun⟩

/-- A recorded entry takes the place of the one of its case and role. -/
theorem Orderly.record (h : m.Orderly) (he : e.Named) : (m.record e).Orderly := by
  have hnamed : ∀ old ∈ (m.record e).tensors, old.Named := by
    intro old hold
    rcases Area.mem_record hold with ⟨hold, -⟩ | rfl
    · exact h.named old hold
    · exact he
  have hother : ∀ old ∈ m.tensors.filter fun old => !isFor e.case e.role old,
      ¬ (old.case = e.case ∧ old.role = e.role) := by
    intro old hold
    have hne := (List.mem_filter.mp hold).2
    rwa [Bool.not_eq_true', ← Bool.not_eq_true, Area.isFor_iff] at hne
  refine ⟨?_, ?_, fun model hm old hold => (h.model model hm).file_ne (hnamed old hold), hnamed,
    h.model⟩
  · refine List.pairwise_append.mpr ⟨h.once.filter _, List.pairwise_singleton _ e, ?_⟩
    intro old hold new hnew
    rw [List.mem_singleton.mp hnew]
    exact hother old hold
  · refine List.pairwise_append.mpr ⟨h.files.filter _, List.pairwise_singleton _ e, ?_⟩
    intro old hold new hnew hfile
    rw [List.mem_singleton.mp hnew] at hfile
    exact hother old hold ((h.named old (List.mem_filter.mp hold).1).of_file he hfile)

/-- A recorded model takes the place of the one before. -/
theorem Orderly.withModel (h : m.Orderly) {model : ModelEntry} (hmodel : model.Named) :
    ({ m with model := some model } : Manifest).Orderly := by
  have hnamed : ∀ found, some model = some found → found.Named := by
    intro found hfound
    cases hfound
    exact hmodel
  exact ⟨h.once, h.files, fun found hf e he => (hnamed found hf).file_ne (h.named e he), h.named,
    hnamed⟩

end Manifest

namespace Area

variable {a : Area} {fs fs' : Files} {m : Manifest}

/-! ## Records and files -/

/-- A recorded file can be read and has the recorded digest. -/
def Backs (a : Area) (fs : Files) (file sha256 : String) : Prop :=
  ∃ bytes, fs.read (join a.root file) = .ok bytes ∧ sha256 = Digest.sha256Hex bytes

theorem Backs.of_spares {spots : Location → Prop} {file sha256 : String}
    (h : a.Backs fs file sha256) (hs : fs.Spares spots fs')
    (hfile : ¬ spots (location (join a.root file))) : a.Backs fs' file sha256 := by
  obtain ⟨bytes, hread, hdigest⟩ := h
  exact ⟨bytes, hs.read hread hfile, hdigest⟩

/-- All that a manifest records is there. -/
structure Attests (a : Area) (fs : Files) (m : Manifest) : Prop where
  /-- Every entry names a file of its own. -/
  orderly : m.Orderly
  /-- The tensor files are the recorded ones. -/
  tensors : ∀ e ∈ m.tensors, a.Backs fs e.file e.sha256
  /-- The file of the model is the recorded one. -/
  model : ∀ model, m.model = some model → a.Backs fs model.file model.sha256

theorem attests_empty (a : Area) (fs : Files) : a.Attests fs .empty :=
  ⟨Manifest.orderly_empty, nofun, nofun⟩

/-- There is no manifest, or one that can be read and whose records are true. -/
def Truthful (a : Area) (fs : Files) : Prop :=
  fs.pathExists a.manifestPath = true → ∃ m, a.Lists fs m ∧ a.Attests fs m

/-- Where the records of tensors and models may lead. -/
def Recorded (a : Area) (loc : Location) : Prop :=
  (∃ e : TensorEntry, e.Named ∧ loc = location (join a.root e.file)) ∨
    ∃ model : ModelEntry, model.Named ∧ loc = location (join a.root model.file)

theorem not_recorded_manifest (a : Area) : ¬ a.Recorded a.manifestSpot := by
  rintro (⟨e, he, hloc⟩ | ⟨model, ⟨format, hdot, hfile⟩, hloc⟩)
  · obtain ⟨b, -, hfile⟩ := he.tensorFile a.root
    rw [location_join a.root he.isName, hfile] at hloc
    exact b.tensorFile_ne_fixed manifest_fixed e.case e.role (entry_inj hloc).symm
  · rw [hfile] at hloc
    exact location_model_ne_manifest hdot hloc.symm

/-- Records stay true while no recorded file is touched. -/
theorem Attests.of_spares {spots : Location → Prop} (h : a.Attests fs m)
    (hs : fs.Spares spots fs') (hfree : ∀ loc, a.Recorded loc → ¬ spots loc) :
    a.Attests fs' m where
  orderly := h.orderly
  tensors e he := (h.tensors e he).of_spares hs
    (hfree _ (Or.inl ⟨e, h.orderly.named e he, rfl⟩))
  model model hm := (h.model model hm).of_spares hs
    (hfree _ (Or.inr ⟨model, h.orderly.model model hm, rfl⟩))

theorem location_model_ne {model : ModelEntry} {e : TensorEntry} (h : model.Named)
    (he : e.Named) : location (join a.root model.file) ≠ location (join a.root e.file) := by
  obtain ⟨format, hdot, hfile⟩ := h
  obtain ⟨b, -, hb⟩ := he.tensorFile a.root
  rw [location_join a.root he.isName, hfile, hb]
  exact location_model_ne_tensor hdot b e.case e.role

/-- Named entries of one place are for one case and role. -/
theorem eq_of_location {e e' : TensorEntry} (he : e.Named) (he' : e'.Named)
    (hloc : location (join a.root e.file) = location (join a.root e'.file)) :
    e.case = e'.case ∧ e.role = e'.role := by
  rw [location_join a.root he.isName, location_join a.root he'.isName] at hloc
  exact he.of_file he' (entry_inj hloc)

/-- Records stay true when a file is written and takes the entry of its case and role. -/
theorem Attests.record (h : a.Attests fs m) {e : TensorEntry} (he : e.Named)
    (hs : fs.Spares (· = location (join a.root e.file)) fs')
    (hback : a.Backs fs' e.file e.sha256) : a.Attests fs' (m.record e) where
  orderly := h.orderly.record he
  tensors old hold := by
    rcases mem_record hold with ⟨hold, hother⟩ | rfl
    · exact (h.tensors old hold).of_spares hs fun hloc =>
        hother (eq_of_location (h.orderly.named old hold) he hloc)
    · exact hback
  model model hm := (h.model model hm).of_spares hs
    (location_model_ne (h.orderly.model model hm) he)

/-- Records stay true when a model is written and takes the place of the one before. -/
theorem Attests.withModel (h : a.Attests fs m) {model : ModelEntry} (hmodel : model.Named)
    (hs : fs.Spares (· = location (join a.root model.file)) fs')
    (hback : a.Backs fs' model.file model.sha256) :
    a.Attests fs' { m with model := some model } where
  orderly := h.orderly.withModel hmodel
  tensors e he := (h.tensors e he).of_spares hs
    (location_model_ne hmodel (h.orderly.named e he)).symm
  model found hfound := by
    cases hfound
    exact hback

/-! ## What staging sustains -/

/-- What is said of files and the manifest that lists them is sustained by staging: it is true
where nothing is listed, it stays true while nothing is touched that it rests on, and it stays true
when a file is written and recorded. -/
structure Sustained (a : Area) (said : Files → Manifest → Prop) (rests : Location → Prop) :
    Prop where
  /-- It is true where nothing is listed. -/
  empty : ∀ fs, said fs .empty
  /-- It does not rest on the document of the manifest. -/
  manifest : ¬ rests a.manifestSpot
  /-- It stays true while nothing is touched that it rests on. -/
  spares : ∀ {fs fs' : Files} {m : Manifest} {spots : Location → Prop}, said fs m →
    fs.Spares spots fs' → (∀ loc, rests loc → ¬ spots loc) → said fs' m
  /-- A tensor that was written can be recorded. -/
  record : ∀ {fs fs' : Files} {m : Manifest} {e : TensorEntry}, said fs m → e.Named →
    fs.Spares (· = location (join a.root e.file)) fs' → a.Backs fs' e.file e.sha256 →
      said fs' (m.record e)
  /-- A model that was written can be recorded. -/
  withModel : ∀ {fs fs' : Files} {m : Manifest} {model : ModelEntry}, said fs m → model.Named →
    fs.Spares (· = location (join a.root model.file)) fs' →
      a.Backs fs' model.file model.sha256 → said fs' { m with model := some model }

theorem attests_sustained (a : Area) : a.Sustained a.Attests a.Recorded where
  empty := a.attests_empty
  manifest := a.not_recorded_manifest
  spares h := h.of_spares
  record h := h.record
  withModel h := h.withModel

/-- Nothing is in place of the manifest, or the area stands and what is said of its files and its
manifest is true. -/
def Upholds (a : Area) (said : Files → Manifest → Prop) (fs : Files) : Prop :=
  fs.get? a.manifestSpot = none ∨ fs.Stands a.root ∧ ∃ m, a.Lists fs m ∧ said fs m

variable {said : Files → Manifest → Prop} {rests : Location → Prop}

/-- What is sustained is so in a root, whatever format the area has. -/
theorem Sustained.of_root {root : String} {format format' : DatasetFormat}
    (h : (⟨root, format⟩ : Area).Sustained said rests) :
    (⟨root, format'⟩ : Area).Sustained said rests :=
  ⟨h.empty, h.manifest, h.spares, h.record, h.withModel⟩

theorem Upholds.of_root {root : String} {format format' : DatasetFormat}
    (h : (⟨root, format⟩ : Area).Upholds said fs) : (⟨root, format'⟩ : Area).Upholds said fs := h

theorem Upholds.truthful (h : a.Upholds a.Attests fs) : a.Truthful fs := by
  intro hexists
  rcases h with hnone | ⟨-, htrue⟩
  · rw [manifestSpot, ← location_join a.root isName_manifest] at hnone
    rw [manifestPath_eq, Files.pathExists_eq_false hnone] at hexists
    cases hexists
  · exact htrue

/-- What is upheld is true of the document of a manifest. -/
theorem Upholds.of_says (h : a.Upholds said fs) (hsaid : a.Says fs m) : said fs m := by
  rcases h with hnone | ⟨hs, found, hl, hfound⟩
  · obtain ⟨bytes, -, hget, -⟩ := hsaid
    rw [hnone] at hget
    cases hget
  · rw [(hsaid.lists hs (hl.admits hs)).unique hl]
    exact hfound

theorem Upholds.of_lists (h : a.Upholds said fs) (hempty : ∀ fs, said fs .empty)
    (hl : a.Lists fs m) : said fs m := by
  rcases hl.says_or_empty with hsaid | rfl
  · exact h.of_says hsaid
  · exact hempty fs

/-- What is upheld stays so while neither what it rests on nor the manifest changes. -/
theorem Upholds.of_spares {spots : Location → Prop} (h : a.Upholds said fs)
    (hsaid : a.Sustained said rests) (hs : fs.Spares spots fs')
    (hfree : ∀ loc, rests loc → ¬ spots loc)
    (hsame : fs'.get? a.manifestSpot = fs.get? a.manifestSpot) : a.Upholds said fs' := by
  rcases h with hnone | ⟨hstands, m, hl, hm⟩
  · exact Or.inl (hsame.trans hnone)
  · exact Or.inr ⟨hs.stands hstands, m, hl.congr hstands (hs.stands hstands) hsame,
      hsaid.spares hm hs hfree⟩

/-! ## Clearing -/

/-- Clearing an area whose manifest it takes away leaves nothing in its place, success or not. -/
theorem reset_unlisted (hup : ¬ OnPath a.root a.manifestSpot)
    (h : a.Leads fs ∨ fs.get? a.manifestSpot = none) :
    (a.reset.run fs).2.get? a.manifestSpot = none := by
  obtain ⟨swept, -, -, hbelow, hend⟩ := a.reset_run fs
  obtain ⟨hgone, hsame⟩ := hbelow _ a.isBelow_manifestSpot
  have hnone : swept.get? a.manifestSpot = none := by
    by_cases hleads : a.Leads fs
    · exact hgone hleads
    · rw [hsame hleads]
      exact h.resolve_left hleads
  rcases hend with ⟨e, hr⟩ | hr
  · rw [hr]
    exact hnone
  · rw [hr]
    exact ((Files.makeDirectories_grows swept a.root).elsewhere hup).trans hnone

theorem Upholds.reset (h : a.Upholds said fs) (hup : ¬ OnPath a.root a.manifestSpot) :
    a.Upholds said (a.reset.run fs).2 := by
  by_cases hroot : a.root = ""
  · rw [reset_rootless hroot]
    exact h
  · refine Or.inl (reset_unlisted hup ?_)
    rcases h with hnone | ⟨hs, m, hl, -⟩
    · exact Or.inr hnone
    · have hc := checkPath_of_admits isName_manifest (hl.admits hs)
      exact Or.inl (leads_of_stands hs (hc.resolve_right hroot))

/-! ## Staging -/

section Storing

variable {path : String} {bytes : Bytes} (h : a.Upholds said fs) (hst : a.Stored path bytes fs fs')

include hst

theorem Stored.read : fs'.read path = .ok bytes := by
  obtain ⟨grown, -, -, hw⟩ := hst.made
  exact Files.read_of_write hw

theorem Stored.elsewhere {loc : Location} (hup : ¬ OnPath a.root loc)
    (hne : loc ≠ location path) : fs'.get? loc = fs.get? loc := by
  obtain ⟨grown, hg, -, hw⟩ := hst.made
  rw [(Files.write_placed hw).elsewhere hne, hg.elsewhere hup]

include h

/-- What is listed once a file is stored was listed before, as far as anything was. -/
theorem Upholds.of_stored (hempty : ∀ fs, said fs .empty) (hpath : location path ≠ a.manifestSpot)
    (hl : a.Lists fs' m) : said fs m := by
  rcases hl.says_or_empty with hsaid | rfl
  · exact h.of_says (hsaid.of_file fun bytes => (hst.spares.file _ hpath.symm bytes).mp)
  · exact hempty fs

/-- When the manifest cannot be read once a file is stored, there is none. -/
theorem Upholds.of_unreadable (hup : ¬ OnPath a.root a.manifestSpot)
    (hpath : location path ≠ a.manifestSpot) {e : Failure}
    (he : a.readManifest.run fs' = (.error e, fs')) : a.Upholds said fs' := by
  have hsame := hst.elsewhere hup hpath.symm
  rcases h with hnone | ⟨hs, m, hl, -⟩
  · exact Or.inl (hsame.trans hnone)
  · have hlisted : a.readManifest.run fs' = (.ok m, fs') := hl.congr hs hst.stands hsame
    rw [hlisted] at he
    cases he

end Storing

section Sustaining

variable (hsaid : a.Sustained said rests)

include hsaid

/-- A change of the manifest upholds what is true of the changed one. -/
theorem upholds_withManifest (hs : fs.Stands a.root) (hl : a.Lists fs m) {m' : Manifest}
    (hfits : m'.Fits) (h : said fs m') : a.Upholds said (a.withManifest fs m') := by
  refine Or.inr ⟨withManifest_stands hl hs m', m', withManifest_lists hl hs hfits, ?_⟩
  refine hsaid.spares h (withManifest_spares hl hs m') ?_
  intro loc hloc hspot
  exact hsaid.manifest (hspot ▸ hloc)

/-- A file and its record uphold what recording sustains, however far they come. -/
theorem Upholds.entered (h : a.Upholds said fs) (hup : ¬ OnPath a.root a.manifestSpot)
    {path : String} {bytes : Bytes} {change : Manifest → Manifest} {r : Except Failure Unit}
    (hpath : location path ≠ a.manifestSpot)
    (hfits : ∀ m : Manifest, m.Fits → (change m).Fits)
    (hchange : ∀ (stored : Files) (m : Manifest), said fs m →
      fs.Spares (· = location path) stored → stored.read path = .ok bytes →
      said stored (change m))
    (hentered : a.Entered path bytes change fs r fs') : a.Upholds said fs' := by
  cases hentered with
  | refused hg =>
    have hs : fs.Spares (fun _ => False) fs' := hg.spares
    exact h.of_spares hsaid hs (fun _ _ => id) (hg.elsewhere hup)
  | unrecorded hst he => exact h.of_unreadable hst hup hpath he
  | @recorded stored m hst hl =>
    refine upholds_withManifest hsaid hst.stands hl (hfits m hl.fits) ?_
    exact hchange stored m (h.of_stored hst hsaid.empty hpath hl) hst.spares hst.read

theorem Upholds.stageTensor (h : a.Upholds said fs) (hup : ¬ OnPath a.root a.manifestSpot)
    (case : String) (role : Role) {t : Tensor} (ht : t.shape.Fits) :
    a.Upholds said ((a.stageTensor case role t).run fs).2 := by
  rcases a.stageTensor_ends case role t fs with ⟨e, he⟩ | ⟨bytes, r, fs', hc, -, hr, hentered⟩
  · rw [he]
    exact h
  · rw [hr]
    refine h.entered hsaid hup (a.location_tensorPath_ne_fixed manifest_fixed case role)
      (fun m hm => hm.record (fits_entryOf ht bytes)) ?_ hentered
    intro stored m hm hs hread
    exact hsaid.record hm ⟨hc, a.format, rfl, rfl⟩ hs ⟨bytes, hread, rfl⟩

theorem Upholds.stageModel (h : a.Upholds said fs) (hup : ¬ OnPath a.root a.manifestSpot)
    {source : ModelSource} (hdot : '.' ∉ source.format.extension.toList) :
    a.Upholds said ((a.stageModel source).run fs).2 := by
  rcases a.stageModel_ends source fs with ⟨e, he⟩ | ⟨bytes, r, fs', -, hr, hentered⟩
  · rw [he]
    exact h
  · rw [hr]
    refine h.entered hsaid hup (location_model_ne_manifest hdot) (fun m hm => hm.withModel _) ?_
      hentered
    intro stored m hm hs hread
    exact hsaid.withModel hm ⟨source.format, hdot, rfl⟩ hs ⟨bytes, hread, rfl⟩

theorem Upholds.recordExternal (h : a.Upholds said fs) (case : String) (role : Role)
    (kind : ElementType) : a.Upholds said ((a.recordExternal case role kind).run fs).2 := by
  rcases a.recordExternal_ends case role kind fs with
    ⟨e, he⟩ | ⟨bytes, told, m, hc, hread, hd, hs, hl, hr⟩
  · rw [he]
    exact h
  · rw [hr]
    have hm : said fs m := h.of_lists hsaid.empty hl
    refine upholds_withManifest hsaid hs hl (hl.fits.record (fits_externalEntry hd bytes)) ?_
    exact hsaid.record hm ⟨hc, a.format, rfl, rfl⟩ (.refl _ fs) ⟨bytes, hread, rfl⟩

end Sustaining

end Area

/-! ## Sessions -/

/-- A journal that is written neither where the manifest belongs nor where records lead. -/
structure Journal.Aside (j : Journal) (a : Area) : Prop where
  /-- Its path does not pass the manifest. -/
  manifest : ¬ j.Passes a.manifestSpot
  /-- It is not kept in a recorded file. -/
  recorded : ∀ loc, a.Recorded loc → ¬ j.IsAt loc

theorem Journal.aside_of_silent {j : Journal} (hj : j.path = none) (a : Area) : j.Aside a := by
  constructor
  · rintro ⟨path, hpath, -⟩
    rw [hj] at hpath
    cases hpath
  · rintro loc - ⟨path, hpath, -⟩
    rw [hj] at hpath
    cases hpath

/-- The line behind a step upholds what rests on recorded files. -/
theorem Area.Upholds.logged {σ : Type} {a : Area} {said : Files → Manifest → Prop}
    {rests : Location → Prop} {j : Journal} {bare b : Bench σ} (h : a.Upholds said bare.files)
    (hsaid : a.Sustained said rests) (hrests : ∀ loc, rests loc → a.Recorded loc)
    (hlogged : j.Logged bare b) (hj : j.Aside a) : a.Upholds said b.files :=
  h.of_spares hsaid hlogged.spares (fun loc hloc => hj.recorded loc (hrests loc hloc))
    (hlogged.elsewhere _ hj.manifest)

/-- A task that only stages: the extension of its model has no dot, and a machine can count the
elements of its tensor along each axis. -/
def Task.Stages : Task → Prop
  | .clear | .recordExternal .. => True
  | .saveModel source => '.' ∉ source.format.extension.toList
  | .saveTensor _ _ t => t.shape.Fits
  | .compile _ | .infer .. => False

namespace Site

variable {σ : Type} {w : Site σ} {t : Turn} {b : Bench σ}

/-- A clearing that finds the root leading to a directory, or nothing in place of the manifest,
leaves nothing there, success or not. -/
theorem step_clear_unlisted (htask : t.task = .clear)
    (hup : ¬ OnPath w.root (w.area t).manifestSpot)
    (hstart : (w.area t).Leads b.files ∨ b.files.get? (w.area t).manifestSpot = none)
    (hj : t.journal.Aside (w.area t)) :
    (w.step b t).files.get? (w.area t).manifestSpot = none := by
  obtain ⟨logged, hcloses, hstep⟩ := step_clear (w := w) htask b
  rw [hstep]
  exact (hcloses.elsewhere hj.manifest).trans (Area.reset_unlisted hup hstart)

/-- Every staging turn upholds what staging sustains, however it ends. -/
theorem step_upholds {said : Files → Manifest → Prop} {rests : Location → Prop}
    (hsaid : (w.area t).Sustained said rests) (hrests : ∀ loc, rests loc → (w.area t).Recorded loc)
    (ht : t.task.Stages) (hj : t.journal.Aside (w.area t))
    (hup : ¬ OnPath w.root (w.area t).manifestSpot) (h : (w.area t).Upholds said b.files) :
    (w.area t).Upholds said (w.step b t).files := by
  obtain ⟨bare, htaken, hlogged⟩ := w.step_taken t b
  refine Area.Upholds.logged ?_ hsaid hrests hlogged hj
  cases htaken with
  | clear _ => exact h.reset hup
  | saveModel source htask =>
    rw [htask] at ht
    exact h.stageModel hsaid hup ht
  | saveTensor case role tensor htask =>
    rw [htask] at ht
    exact h.stageTensor hsaid hup case role ht
  | recordExternal case role kind _ => exact h.recordExternal hsaid case role kind
  | compile o htask | infer case o htask =>
    rw [htask] at ht
    cases ht

/-- What every turn of a run upholds the run upholds, whatever the formats. -/
theorem after_upholds {said : Files → Manifest → Prop} {format : DatasetFormat}
    (turns : List Turn)
    (hstep : ∀ t ∈ turns, ∀ b : Bench σ, (w.area t).Upholds said b.files →
      (w.area t).Upholds said (w.step b t).files)
    (h : (⟨w.root, format⟩ : Area).Upholds said b.files) :
    (⟨w.root, format⟩ : Area).Upholds said (w.after b turns).files := by
  induction turns generalizing b with
  | nil => exact h
  | cons t turns ih =>
    have hfirst : (w.area t).Upholds said (w.step b t).files :=
      hstep t List.mem_cons_self b h.of_root
    exact ih (fun u hu => hstep u (List.mem_cons_of_mem t hu)) hfirst.of_root

/-- From a first clearing on, whatever staging turns follow in whatever formats and however each
of them ends, the manifest is absent or tells the truth. What has to hold is that the path to
the root does not pass where the manifest belongs, and that the first clearing finds the root
leading to a directory or nothing in place of the manifest. -/
theorem after_clear_truthful {first : Turn} (hfirst : first.task = .clear)
    (hup : ¬ OnPath w.root (w.area first).manifestSpot)
    (hstart : (w.area first).Leads b.files ∨ b.files.get? (w.area first).manifestSpot = none)
    (turns : List Turn) (hstage : ∀ t ∈ turns, t.task.Stages)
    (hj : ∀ t ∈ first :: turns, t.journal.Aside (w.area t)) (format : DatasetFormat) :
    (⟨w.root, format⟩ : Area).Truthful (w.after b (first :: turns)).files := by
  have hsaid := (⟨w.root, format⟩ : Area).attests_sustained
  have hcleared : (⟨w.root, format⟩ : Area).Upholds (Area.Attests ⟨w.root, format⟩)
      (w.step b first).files :=
    Or.inl (step_clear_unlisted hfirst hup hstart (hj first List.mem_cons_self))
  rw [after_cons]
  refine (after_upholds turns (fun t ht b' h => ?_) hcleared).truthful
  exact step_upholds hsaid.of_root (fun _ h => h) (hstage t ht)
    (hj t (List.mem_cons_of_mem first ht)) hup h

/-- Where no journal is kept all journals are aside. -/
theorem aside_of_silent {turns : List Turn} (h : ∀ t ∈ turns, t.journal.path = none) :
    ∀ t ∈ turns, t.journal.Aside (w.area t) :=
  fun t ht => Journal.aside_of_silent (h t ht) (w.area t)

/-- A model, a tensor of an accepted case and one of a refused case are staged, and a file that
is not there is recorded. -/
def stagingTurns : List Turn :=
  [.saveModel ⟨⟨[1], .f32⟩, .graph, .ok []⟩, .saveTensor "case" .input one,
    .saveTensor "a/b" .input one, .recordExternal "case" .candidate .f32].map quietly

set_option maxRecDepth 10000 in
/-- What is staged in a fresh area, refusals included, leaves a manifest, and it is true. -/
theorem rehearsal_truthful :
    (rehearsal.area (quietly .clear)).Truthful
      (rehearsal.after (fresh []) (quietly .clear :: stagingTurns)).files ∧
    (rehearsal.after (fresh []) (quietly .clear :: stagingTurns)).files.pathExists
      (rehearsal.area (quietly .clear)).manifestPath = true := by
  refine ⟨?_, by decide +kernel⟩
  refine after_clear_truthful rfl ?_ (Or.inr rfl) stagingTurns ?_ (aside_of_silent (by decide)) .raw
  · exact Area.not_onPath_manifestSpot (a := rehearsal.area (quietly .clear)) (by decide)
  · simp only [stagingTurns, quietly, List.map_cons, List.map_nil, List.forall_mem_cons,
      List.not_mem_nil, false_implies, implies_true, and_true]
    have hfits : one.shape.Fits := show ∀ d ∈ one.shape, d < wordLimit by decide
    exact ⟨show '.' ∉ ModelFormat.graph.extension.toList by decide, hfits, hfits, trivial⟩

/-- The site whose directory is the empty path. -/
def rootless : Site (List Answer) := { rehearsal with root := "" }

/-- A file that is no manifest stands where the manifest of the empty path belongs. -/
def spoilt : Bench (List Answer) :=
  { fresh [] with files := Files.empty.set [Area.manifestName] (.file [0x7b]) }

set_option maxRecDepth 10000 in
/-- Clearing the empty path succeeds and leaves what stands in place of the manifest. -/
theorem rootless_not_truthful :
    ((rootless.perform (quietly .clear)).run spoilt).1 = .ok none ∧
    ¬ (rootless.area (quietly .clear)).Truthful (rootless.after spoilt [quietly .clear]).files := by
  refine ⟨rfl, fun htrue => ?_⟩
  obtain ⟨m, hl, -⟩ := htrue (by decide +kernel)
  have hfails : (((rootless.area (quietly .clear)).readManifest.run
      (rootless.after spoilt [quietly .clear]).files).1.toOption).isSome = false := by
    decide +kernel
  rw [hl] at hfails
  cases hfails

end Site

end NetTrial
