import NetTrial.Proofs.Actions
import NetTrial.Proofs.Directories
import NetTrial.Proofs.ManifestDocument
import NetTrial.Proofs.StagingNames
/-!
# What staging does to the files

Every staging action is the bare one of its logged step. Reading the manifest changes nothing.
Putting a file in the area and its record in the manifest ends in one of three ways: nothing
was written, the file was written and the manifest cannot be read, or both were written. What
the manifest says afterwards is what it said before, with the change made.
-/

namespace NetTrial

open NetTrial.Path Text

namespace Area

variable {a : Area} {fs fs' : Files} {m : Manifest}

/-! ## The manifest -/

/-- Where the manifest is. -/
def manifestSpot (a : Area) : Location := location a.root ++ [manifestName]

theorem manifestPath_eq (a : Area) : a.manifestPath = join a.root manifestName := rfl

theorem manifestSpot_ne_nil (a : Area) : a.manifestSpot ≠ [] := by
  simp [manifestSpot]

/-- The manifest of an area is this one. -/
def Lists (a : Area) (fs : Files) (m : Manifest) : Prop := a.readManifest.run fs = (.ok m, fs)

theorem readManifest_run (a : Area) (fs : Files) :
    a.readManifest.run fs = (match fs.readChars a.manifestPath with
      | .ok cs => (Manifest.ofChars cs).mapError fun cause =>
          .decode a.manifestPath (.document cause)
      | .error .notFound => .ok .empty
      | .error cause => .error (.os a.manifestPath cause), fs) := by
  rw [readManifest, Action.run_get_bind]
  cases hr : fs.readChars a.manifestPath with
  | error e => cases e <;> rfl
  | ok cs =>
    simp only
    cases Manifest.ofChars cs <;> rfl

theorem readManifest_files (a : Area) (fs : Files) : (a.readManifest.run fs).2 = fs := by
  rw [readManifest_run]

/-- Reading the manifest gives a manifest or fails, and changes nothing. -/
theorem lists_or_fails (a : Area) (fs : Files) :
    (∃ m, a.Lists fs m) ∨ ∃ e, a.readManifest.run fs = (.error e, fs) := by
  have hf := a.readManifest_files fs
  rcases h : a.readManifest.run fs with ⟨e | m, fs'⟩
  · rw [h] at hf
    subst hf
    exact Or.inr ⟨e, rfl⟩
  · rw [h] at hf
    subst hf
    exact Or.inl ⟨m, h⟩

theorem Lists.unique {m' : Manifest} (h : a.Lists fs m) (h' : a.Lists fs m') : m = m' := by
  rw [Lists] at h h'
  rw [h] at h'
  cases h'
  rfl

/-- Characters are read from a file that is text. -/
theorem readChars_eq_ok {path : String} {cs : List Char} :
    fs.readChars path = .ok cs ↔
      ∃ bytes, fs.read path = .ok bytes ∧ decodeChars? bytes = some cs := by
  rw [Files.readChars]
  cases hr : fs.read path with
  | error e =>
    constructor
    · intro h
      cases h
    · rintro ⟨bytes, h, -⟩
      cases h
  | ok bytes =>
    simp only [bind, Except.bind]
    cases hd : decodeChars? bytes with
    | none =>
      constructor
      · intro h
        cases h
      · rintro ⟨bytes', h, hd'⟩
        cases h
        rw [hd] at hd'
        cases hd'
    | some found =>
      constructor
      · intro h
        cases h
        exact ⟨bytes, rfl, hd⟩
      · rintro ⟨bytes', h, hd'⟩
        cases h
        rw [hd] at hd'
        cases hd'
        rfl

theorem readChars_notFound {path : String} :
    fs.readChars path = .error .notFound ↔ fs.read path = .error .notFound := by
  rw [Files.readChars]
  cases hr : fs.read path with
  | error e =>
    constructor
    · intro h
      cases h
      rfl
    · intro h
      cases h
      rfl
  | ok bytes =>
    simp only [bind, Except.bind]
    cases decodeChars? bytes with
    | none => simp
    | some cs => simp [pure, Except.pure]

/-- A manifest is read from its file, or is the empty one of an area without the file. -/
theorem lists_iff : a.Lists fs m ↔
    (∃ bytes cs, fs.read a.manifestPath = .ok bytes ∧ decodeChars? bytes = some cs ∧
      Manifest.ofChars cs = .ok m) ∨ fs.read a.manifestPath = .error .notFound ∧ m = .empty := by
  rw [Lists, readManifest_run]
  cases hr : fs.readChars a.manifestPath with
  | ok cs =>
    obtain ⟨bytes, hread, hdecode⟩ := (readChars_eq_ok).mp hr
    simp only [hread]
    constructor
    · intro h
      cases hm : Manifest.ofChars cs with
      | error e =>
        rw [hm] at h
        cases h
      | ok found =>
        rw [hm] at h
        cases h
        exact Or.inl ⟨bytes, cs, rfl, hdecode, hm⟩
    · rintro (⟨bytes', cs', hb, hd, hm⟩ | ⟨h, -⟩)
      · cases hb
        rw [hdecode] at hd
        cases hd
        rw [hm]
        rfl
      · cases h
  | error e =>
    have hnone : ¬ ∃ bytes cs, fs.read a.manifestPath = .ok bytes ∧
        decodeChars? bytes = some cs ∧ Manifest.ofChars cs = .ok m := by
      rintro ⟨bytes, cs, hb, hd, -⟩
      rw [(readChars_eq_ok).mpr ⟨bytes, hb, hd⟩] at hr
      cases hr
    by_cases he : e = .notFound
    · subst he
      have hread := (readChars_notFound).mp hr
      simp only [hread]
      constructor
      · intro h
        cases h
        exact Or.inr ⟨trivial, rfl⟩
      · rintro (⟨_, _, h, -⟩ | ⟨-, rfl⟩)
        · cases h
        · rfl
    · have hread : fs.read a.manifestPath ≠ .error .notFound := by
        intro h
        rw [(readChars_notFound).mpr h] at hr
        cases hr
        exact he rfl
      constructor
      · intro h
        cases e <;> first | exact absurd rfl he | cases h
      · rintro (h | ⟨h, -⟩)
        · exact absurd h hnone
        · exact absurd h hread

/-- A manifest that an area lists fits its document. -/
theorem Lists.fits (h : a.Lists fs m) : m.Fits := by
  rcases (lists_iff).mp h with ⟨bytes, cs, -, -, hm⟩ | ⟨-, rfl⟩
  · exact Manifest.fits_of_ofChars hm
  · exact Manifest.fits_empty

theorem checkPath_notFound {path : String} (h : Files.checkPath path = .error .notFound) :
    path = "" := by
  rw [Files.checkPath] at h
  by_cases hz : path.toList.contains (Char.ofNat 0) = true
  · rw [if_pos hz] at h
    cases h
  · rw [if_neg hz] at h
    by_cases he : path = ""
    · exact he
    · rw [if_neg he] at h
      by_cases hl : Files.longestPath < path.utf8ByteSize
      · rw [if_pos hl] at h
        cases h
      · rw [if_neg hl] at h
        cases h

theorem checkName_ne_notFound (name : String) : Files.checkName name ≠ .error .notFound := by
  rw [Files.checkName]
  by_cases hl : Files.longestName < name.utf8ByteSize
  · rw [if_pos hl]
    intro h
    cases h
  · rw [if_neg hl]
    intro h
    cases h

/-- What is refused of an entry is its spelling, never that it is not there. -/
theorem admits_ne_notFound {root name : String} (hn : IsName name) :
    Files.admits root name ≠ .error .notFound := by
  rw [Files.admits]
  cases hc : Files.checkPath (join root name) with
  | error e =>
    intro h
    cases h
    have he := checkPath_notFound hc
    obtain ⟨front, hf⟩ := toList_join root name
    rw [he] at hf
    have hnil : name.toList = [] := (List.append_eq_nil_iff.mp hf.symm).2
    exact hn.ne_empty (String.toList_inj.mp (hnil.trans rfl))
  | ok _ => exact checkName_ne_notFound name

/-- A standing area that lists a manifest can be written to. -/
theorem Lists.admits (h : a.Lists fs m) (hs : fs.Stands a.root) :
    Files.admits a.root manifestName = .ok () := by
  cases ha : Files.admits a.root manifestName with
  | ok _ => rfl
  | error e =>
    have hread := hs.read_join isName_manifest
    rw [ha] at hread
    have he : e ≠ .notFound := by
      rintro rfl
      exact admits_ne_notFound isName_manifest ha
    rcases (lists_iff).mp h with ⟨bytes, cs, hb, -, -⟩ | ⟨hn, -⟩
    · rw [manifestPath_eq, hread] at hb
      cases hb
    · rw [manifestPath_eq, hread] at hn
      cases hn
      exact absurd rfl he

/-- A path that goes on can only be spoken of if what it goes on from can. -/
theorem checkPath_of_admits {root name : String} (hn : IsName name)
    (h : Files.admits root name = .ok ()) : Files.checkPath root = .ok () ∨ root = "" := by
  by_cases he : root = ""
  · exact Or.inr he
  left
  obtain ⟨rest, hj⟩ : ∃ rest, join root name = root ++ rest := by
    have hslash : ¬ startsWith "/" name = true := by
      intro hs
      obtain ⟨rest, hr⟩ := startsWith_iff.mp hs
      exact hn.whole (by simp [hr])
    rw [join, if_neg hslash]
    split
    · exact ⟨name, rfl⟩
    · exact ⟨"/" ++ name, String.append_assoc⟩
  exact Files.checkPath_of_append (hj ▸ (Files.admits_eq_ok.mp h).1) he

/-- What stands at the place of the manifest is the document of a manifest, whether or not the
path of the manifest leads there. -/
def Says (a : Area) (fs : Files) (m : Manifest) : Prop :=
  ∃ bytes cs, fs.get? a.manifestSpot = some (.file bytes) ∧ decodeChars? bytes = some cs ∧
    Manifest.ofChars cs = .ok m

theorem Says.unique {m' : Manifest} (h : a.Says fs m) (h' : a.Says fs m') : m = m' := by
  obtain ⟨bytes, cs, hg, hd, hm⟩ := h
  obtain ⟨bytes', cs', hg', hd', hm'⟩ := h'
  rw [hg] at hg'
  cases hg'
  rw [hd] at hd'
  cases hd'
  rw [hm] at hm'
  cases hm'
  rfl

theorem Says.of_file (h : a.Says fs' m) (hsame : ∀ bytes,
    fs'.get? a.manifestSpot = some (.file bytes) → fs.get? a.manifestSpot = some (.file bytes)) :
    a.Says fs m := by
  obtain ⟨bytes, cs, hg, hd, hm⟩ := h
  exact ⟨bytes, cs, hsame bytes hg, hd, hm⟩

/-- A listed manifest stands in the document, unless there is no document. -/
theorem Lists.says_or_empty (h : a.Lists fs m) : a.Says fs m ∨ m = .empty := by
  rcases (lists_iff).mp h with ⟨bytes, cs, hb, hd, hm⟩ | ⟨-, he⟩
  · exact Or.inl ⟨bytes, cs, ((Files.read_join_eq_ok isName_manifest).mp hb).2.2, hd, hm⟩
  · exact Or.inr he

theorem Says.lists (h : a.Says fs m) (hs : fs.Stands a.root)
    (ha : Files.admits a.root manifestName = .ok ()) : a.Lists fs m := by
  obtain ⟨bytes, cs, hg, hd, hm⟩ := h
  exact (lists_iff).mpr (Or.inl ⟨bytes, cs,
    (Files.read_join_eq_ok isName_manifest).mpr ⟨hs, ha, hg⟩, hd, hm⟩)

/-- A manifest with a tensor was read, so its path is one that is spoken of. -/
theorem Lists.spoken (h : a.Lists fs m) {case : String} {role : Role} {e : TensorEntry}
    (he : m.tensor? case role = some e) : Files.admits a.root manifestName = .ok () := by
  rcases (lists_iff).mp h with ⟨bytes, cs, hb, -, -⟩ | ⟨-, rfl⟩
  · exact ((Files.read_join_eq_ok isName_manifest).mp hb).2.1
  · cases he

/-- A document that was written says its manifest. -/
theorem says_of_get? (hm : m.Fits) (hg : fs.get? a.manifestSpot = some (.file m.bytes)) :
    a.Says fs m :=
  ⟨m.bytes, m.document, hg, m.decodeChars?_bytes, Manifest.ofChars_document hm⟩

/-! ## Writing -/

/-- In a standing area a file is written to its entry unless a directory is there. -/
theorem writeFile_of_stands (hs : fs.Stands a.root) {name : String} (hn : IsName name)
    (ha : Files.admits a.root name = .ok ())
    (hd : fs.get? (location a.root ++ [name]) ≠ some .directory) (bytes : Bytes) :
    (a.writeFile (join a.root name) bytes).run fs =
      (.ok (), fs.set (location a.root ++ [name]) (.file bytes)) := by
  have hmake := hs.makeDirectories (checkPath_of_admits hn ha)
  have hwrite : fs.write (join a.root name) bytes =
      .ok (fs.set (location a.root ++ [name]) (.file bytes)) := by
    rw [hs.write_join hn, ha]
    exact if_neg hd
  have hfirst : (Action.attempt a.root (·.makeDirectories a.root)).run fs = (.ok (), fs) := by
    rw [Action.run_attempt, hmake]
    rfl
  rw [writeFile, Action.run_bind_of_ok hfirst, Action.run_edit, hwrite]

/-- What stands at the entry of the manifest is what the area lists. -/
theorem Lists.congr (h : a.Lists fs m) (hs : fs.Stands a.root) (hs' : fs'.Stands a.root)
    (hsame : fs'.get? a.manifestSpot = fs.get? a.manifestSpot) : a.Lists fs' m := by
  have hread : fs'.read a.manifestPath = fs.read a.manifestPath := by
    rw [manifestPath_eq, hs'.read_join isName_manifest, hs.read_join isName_manifest]
    rw [manifestSpot] at hsame
    rw [hsame]
  rw [lists_iff, hread]
  exact lists_iff.mp h

theorem Lists.get?_ne_directory (h : a.Lists fs m) (hs : fs.Stands a.root) :
    fs.get? a.manifestSpot ≠ some .directory := by
  intro hd
  have hread := hs.read_join isName_manifest
  rw [manifestSpot] at hd
  rw [h.admits hs, hd] at hread
  rcases lists_iff.mp h with ⟨bytes, cs, hb, -, -⟩ | ⟨hn, -⟩
  · rw [manifestPath_eq, hread] at hb
    cases hb
  · rw [manifestPath_eq, hread] at hn
    cases hn

/-- A file in place of a file or of nothing keeps every directory. -/
theorem isDirectoryAt_set {spot : Location} (hne : spot ≠ [])
    (hd : fs.get? spot ≠ some .directory) (node : Node) {loc : Location}
    (h : fs.isDirectoryAt loc = true) : (fs.set spot node).isDirectoryAt loc = true := by
  rw [Files.isDirectoryAt_iff] at h ⊢
  rw [Files.get?_set fs hne, if_neg, h]
  rintro rfl
  exact hd h

/-- The files with another manifest. -/
def withManifest (a : Area) (fs : Files) (m : Manifest) : Files :=
  fs.set a.manifestSpot (.file m.bytes)

theorem withManifest_get? (a : Area) (fs : Files) (m : Manifest) (loc : Location) :
    (a.withManifest fs m).get? loc =
      if loc = a.manifestSpot then some (.file m.bytes) else fs.get? loc :=
  Files.get?_set fs a.manifestSpot_ne_nil _ loc

theorem withManifest_stands (h : a.Lists fs m) (hs : fs.Stands a.root) (m' : Manifest) :
    (a.withManifest fs m').Stands a.root :=
  hs.mono fun _ => isDirectoryAt_set a.manifestSpot_ne_nil (h.get?_ne_directory hs) _

/-- The changed manifest is listed from then on. -/
theorem withManifest_lists (h : a.Lists fs m) (hs : fs.Stands a.root) {m' : Manifest}
    (hm : m'.Fits) : a.Lists (a.withManifest fs m') m' := by
  refine Says.lists (says_of_get? hm ?_) (withManifest_stands h hs m') (h.admits hs)
  rw [withManifest_get?, if_pos rfl]

/-- A changed manifest is what its document says, if that can be read at all. -/
theorem says_withManifest {found m' : Manifest} (h : a.Says (a.withManifest fs m') found) :
    found = m' := by
  obtain ⟨bytes, cs, hg, hd, hm⟩ := h
  rw [withManifest_get?, if_pos rfl] at hg
  cases hg
  rw [m'.decodeChars?_bytes] at hd
  cases hd
  exact Manifest.eq_of_ofChars_document hm

/-- In a standing area the manifest is replaced by the changed one. -/
theorem updateManifest_of_lists (h : a.Lists fs m) (hs : fs.Stands a.root)
    (change : Manifest → Manifest) :
    (a.updateManifest change).run fs = (.ok (), a.withManifest fs (change m)) := by
  rw [updateManifest, Action.run_bind_of_ok h]
  exact writeFile_of_stands hs isName_manifest (h.admits hs) (h.get?_ne_directory hs) _

theorem updateManifest_of_fails {e : Failure} (h : a.readManifest.run fs = (.error e, fs))
    (change : Manifest → Manifest) : (a.updateManifest change).run fs = (.error e, fs) := by
  rw [updateManifest, Action.run_bind_of_error h]

/-! ## A file and its record -/

/-- A file was written in a standing area, whose directories may have been made for it. -/
structure Stored (a : Area) (path : String) (bytes : Bytes) (fs fs' : Files) : Prop where
  /-- Directories were made and then the file was written. -/
  made : ∃ grown, fs.Grows (OnPath a.root) grown ∧ grown.Stands a.root ∧
    grown.write path bytes = .ok fs'

theorem Stored.stands {path : String} {bytes : Bytes} (h : a.Stored path bytes fs fs') :
    fs'.Stands a.root := by
  obtain ⟨grown, -, hs, hw⟩ := h.made
  have hp := Files.write_placed hw
  rw [hp.same]
  exact hs.mono fun _ => isDirectoryAt_set hp.below hp.free _

theorem Stored.get?_location {path : String} {bytes : Bytes} (h : a.Stored path bytes fs fs') :
    fs'.get? (location path) = some (.file bytes) := by
  obtain ⟨grown, -, -, hw⟩ := h.made
  have hp := Files.write_placed hw
  rw [hp.same, Files.get?_set grown hp.below, if_pos rfl]

/-- What was stored under a name can be spoken of. -/
theorem Stored.admits {name : String} {bytes : Bytes} (hn : IsName name)
    (h : a.Stored (join a.root name) bytes fs fs') : Files.admits a.root name = .ok () := by
  obtain ⟨grown, -, hs, hw⟩ := h.made
  rw [hs.write_join hn] at hw
  cases ha : Files.admits a.root name with
  | ok _ => rfl
  | error e =>
    rw [ha] at hw
    cases hw

theorem stands_empty (fs : Files) : fs.Stands "" :=
  ⟨by simp [pieces_empty, Files.follow, isIdle, Files.isDirectoryAt_nil, location, walk, step],
    Files.isDirectoryAt_nil fs⟩

/-- A file is not written, or it is written in a standing area. -/
theorem writeFile_ends (a : Area) (path : String) (bytes : Bytes) (fs : Files) :
    (∃ e grown, (a.writeFile path bytes).run fs = (.error e, grown) ∧
        fs.Grows (OnPath a.root) grown) ∨
      ∃ fs', (a.writeFile path bytes).run fs = (.ok (), fs') ∧ a.Stored path bytes fs fs' := by
  have hgrows := Files.makeDirectories_grows fs a.root
  rw [writeFile, Action.run_bind, Action.run_attempt]
  cases hm : (fs.makeDirectories a.root).1 with
  | error e => exact Or.inl ⟨_, _, rfl, hgrows⟩
  | ok _ =>
    have hstands : (fs.makeDirectories a.root).2.Stands a.root := by
      by_cases he : a.root = ""
      · rw [he]
        exact stands_empty _
      · exact Files.makeDirectories_stands he hm
    change (∃ e grown, (Action.edit path _).run (fs.makeDirectories a.root).2 = _ ∧ _) ∨
      ∃ fs', (Action.edit path _).run (fs.makeDirectories a.root).2 = _ ∧ _
    rw [Action.run_edit]
    cases hw : (fs.makeDirectories a.root).2.write path bytes with
    | error e => exact Or.inl ⟨_, _, rfl, hgrows⟩
    | ok fs' => exact Or.inr ⟨fs', rfl, _, hgrows, hstands, hw⟩

/-- Writes a file and changes the manifest. -/
def enter (a : Area) (path : String) (bytes : Bytes) (change : Manifest → Manifest) :
    Action Files Unit := do
  a.writeFile path bytes
  a.updateManifest change

/-- How writing a file and its record can end. -/
inductive Entered (a : Area) (path : String) (bytes : Bytes) (change : Manifest → Manifest)
    (fs : Files) : Except Failure Unit → Files → Prop where
  /-- The file was not written. -/
  | refused {e : Failure} {fs' : Files} : fs.Grows (OnPath a.root) fs' →
      Entered a path bytes change fs (.error e) fs'
  /-- The file was written and the manifest cannot be read. -/
  | unrecorded {e : Failure} {fs' : Files} : a.Stored path bytes fs fs' →
      a.readManifest.run fs' = (.error e, fs') → Entered a path bytes change fs (.error e) fs'
  /-- The file was written and recorded. -/
  | recorded {fs' : Files} {m : Manifest} : a.Stored path bytes fs fs' → a.Lists fs' m →
      Entered a path bytes change fs (.ok ()) (a.withManifest fs' (change m))

theorem enter_ends (a : Area) (path : String) (bytes : Bytes) (change : Manifest → Manifest)
    (fs : Files) : a.Entered path bytes change fs ((a.enter path bytes change).run fs).1
      ((a.enter path bytes change).run fs).2 := by
  rcases a.writeFile_ends path bytes fs with ⟨e, grown, hw, hg⟩ | ⟨fs', hw, hst⟩
  · rw [enter, Action.run_bind_of_error hw]
    exact .refused hg
  · rw [enter, Action.run_bind_of_ok hw]
    rcases a.lists_or_fails fs' with ⟨m, hm⟩ | ⟨e, he⟩
    · rw [updateManifest_of_lists hm hst.stands]
      exact .recorded hst hm
    · rw [updateManifest_of_fails he]
      exact .unrecorded hst he

/-- The files with a file put at an entry of the area and another manifest. -/
def withEntry (a : Area) (fs : Files) (name : String) (bytes : Bytes) (m : Manifest) : Files :=
  a.withManifest (fs.set (location a.root ++ [name]) (.file bytes)) m

theorem withEntry_get? (a : Area) (fs : Files) (name : String) (bytes : Bytes) (m : Manifest)
    (loc : Location) : (a.withEntry fs name bytes m).get? loc =
      if loc = a.manifestSpot then some (.file m.bytes)
      else if loc = location a.root ++ [name] then some (.file bytes) else fs.get? loc := by
  rw [withEntry, withManifest_get?, Files.get?_set fs (by simp)]

section Entering

variable {name : String} (hs : fs.Stands a.root) (h : a.Lists fs m) (hne : name ≠ manifestName)
  (hd : fs.get? (location a.root ++ [name]) ≠ some .directory) (bytes : Bytes)

include hs hd

theorem stands_set_entry : (fs.set (location a.root ++ [name]) (.file bytes)).Stands a.root :=
  hs.mono fun _ => isDirectoryAt_set (by simp) hd _

include h hne

theorem lists_set_entry : a.Lists (fs.set (location a.root ++ [name]) (.file bytes)) m := by
  have hother : a.manifestSpot ≠ location a.root ++ [name] := entry_ne hne.symm
  have hsame : (fs.set (location a.root ++ [name]) (.file bytes)).get? a.manifestSpot =
      fs.get? a.manifestSpot := by
    rw [Files.get?_set fs (by simp), if_neg hother]
  exact h.congr hs (stands_set_entry hs hd bytes) hsame

theorem withEntry_stands (m' : Manifest) : (a.withEntry fs name bytes m').Stands a.root :=
  withManifest_stands (lists_set_entry hs h hne hd bytes) (stands_set_entry hs hd bytes) m'

theorem withEntry_lists {m' : Manifest} (hm : m'.Fits) :
    a.Lists (a.withEntry fs name bytes m') m' :=
  withManifest_lists (lists_set_entry hs h hne hd bytes) (stands_set_entry hs hd bytes) hm

/-- In a standing area that lists a manifest a file that can be written is recorded. -/
theorem enter_of_lists (hn : IsName name) (ha : Files.admits a.root name = .ok ())
    (change : Manifest → Manifest) :
    (a.enter (join a.root name) bytes change).run fs =
      (.ok (), a.withEntry fs name bytes (change m)) := by
  rw [enter, Action.run_bind_of_ok (writeFile_of_stands hs hn ha hd bytes)]
  exact updateManifest_of_lists (lists_set_entry hs h hne hd bytes)
    (stands_set_entry hs hd bytes) change

end Entering

/-- In a standing area a file that cannot be written changes nothing. -/
theorem enter_refused (hs : fs.Stands a.root)
    (hc : Files.checkPath a.root = .ok () ∨ a.root = "") {name : String} (hn : IsName name)
    (hbad : ¬ (Files.admits a.root name = .ok () ∧
      fs.get? (location a.root ++ [name]) ≠ some .directory)) (bytes : Bytes)
    (change : Manifest → Manifest) :
    ∃ e, (a.enter (join a.root name) bytes change).run fs = (.error e, fs) := by
  have hfirst : (Action.attempt a.root (·.makeDirectories a.root)).run fs = (.ok (), fs) := by
    rw [Action.run_attempt, hs.makeDirectories hc]
    rfl
  have hwrite : ∃ e, fs.write (join a.root name) bytes = .error e := by
    rw [hs.write_join hn]
    cases ha : Files.admits a.root name with
    | error e => exact ⟨e, rfl⟩
    | ok _ =>
      by_cases hd : fs.get? (location a.root ++ [name]) = some .directory
      · exact ⟨_, if_pos hd⟩
      · exact absurd ⟨ha, hd⟩ hbad
  obtain ⟨e, hw⟩ := hwrite
  have hfile : (a.writeFile (join a.root name) bytes).run fs =
      (.error (.os (join a.root name) e), fs) := by
    rw [writeFile, Action.run_bind_of_ok hfirst, Action.run_edit, hw]
  exact ⟨_, by rw [enter, Action.run_bind_of_error hfile]⟩

/-- In a standing area that lists a manifest a file is written and recorded, or nothing is
changed. -/
theorem enter_listed (hs : fs.Stands a.root) (h : a.Lists fs m) {name : String} (hn : IsName name)
    (hne : name ≠ manifestName) (bytes : Bytes) (change : Manifest → Manifest) :
    (∃ e, (a.enter (join a.root name) bytes change).run fs = (.error e, fs)) ∨
      Files.admits a.root name = .ok () ∧
        fs.get? (location a.root ++ [name]) ≠ some .directory ∧
        (a.enter (join a.root name) bytes change).run fs =
          (.ok (), a.withEntry fs name bytes (change m)) := by
  by_cases hfit : Files.admits a.root name = .ok () ∧
      fs.get? (location a.root ++ [name]) ≠ some .directory
  · exact Or.inr ⟨hfit.1, hfit.2, enter_of_lists hs h hne hfit.2 bytes hn hfit.1 change⟩
  · have hc := checkPath_of_admits isName_manifest (h.admits hs)
    exact Or.inl (enter_refused hs hc hn hfit bytes change)

/-! ## Staging tensors and models -/

/-- The record of a staged tensor. -/
def entryOf (a : Area) (case : String) (role : Role) (t : Tensor) (bytes : Bytes) :
    TensorEntry where
  case := case
  role := role
  file := a.tensorFile case role
  shape := some t.shape
  dtype := t.elementType.name
  format := a.format.name
  sha256 := Digest.sha256Hex bytes

/-- The bytes of a tensor's file. -/
def fileBytes (a : Area) (case : String) (role : Role) (t : Tensor) : Except Failure Bytes :=
  (t.toFile a.format).mapError fun e => .staging (a.tensorPath case role) (.dataset e)

/-- Staging a tensor without a line in the journal. -/
def stageTensor (a : Area) (case : String) (role : Role) (t : Tensor) : Action Files String := do
  Action.settle (checkCase case)
  let bytes ← Action.settle (a.fileBytes case role t)
  a.enter (a.tensorPath case role) bytes (·.record (a.entryOf case role t bytes))
  return a.tensorPath case role

/-- The record of a staged model. -/
def modelEntryOf (source : ModelSource) (bytes : Bytes) : ModelEntry :=
  ⟨modelFile source.format, source.format.name, Digest.sha256Hex bytes⟩

/-- The path of the file of a model. -/
def modelPath (a : Area) (source : ModelSource) : String := join a.root (modelFile source.format)

/-- Staging a model without a line in the journal. -/
def stageModel (a : Area) (source : ModelSource) : Action Files String := do
  let bytes ← Action.settle (source.serialized.mapError .modelInvalid)
  a.enter (a.modelPath source) bytes fun m => { m with model := some (modelEntryOf source bytes) }
  return a.modelPath source

/-- What staging a tensor does when case and tensor are fit for it. -/
theorem stageTensor_run {case : String} {role : Role} {t : Tensor} {bytes : Bytes}
    (hc : checkCase case = .ok ()) (hb : a.fileBytes case role t = .ok bytes) (fs : Files) :
    (a.stageTensor case role t).run fs =
      ((a.enter (a.tensorPath case role) bytes (·.record (a.entryOf case role t bytes))).run fs).map
        (·.map fun _ => a.tensorPath case role) id := by
  rw [stageTensor, Action.run_settle_bind, hc]
  simp only
  rw [Action.run_settle_bind, hb]
  simp only
  rw [Action.run_bind]
  rcases (a.enter _ bytes _).run fs with ⟨_ | _, _⟩ <;> rfl

/-- A tensor whose case or form is refused is not staged. -/
theorem stageTensor_refused {case : String} {role : Role} {t : Tensor}
    (h : checkCase case ≠ .ok () ∨ ∀ bytes, a.fileBytes case role t ≠ .ok bytes) (fs : Files) :
    ∃ e, (a.stageTensor case role t).run fs = (.error e, fs) := by
  rw [stageTensor, Action.run_settle_bind]
  cases hc : checkCase case with
  | error e => exact ⟨e, rfl⟩
  | ok _ =>
    simp only
    rw [Action.run_settle_bind]
    cases hb : a.fileBytes case role t with
    | error e => exact ⟨e, rfl⟩
    | ok bytes =>
      rcases h with h | h
      · exact absurd hc h
      · exact absurd hb (h bytes)

/-- A tensor is refused, or its file is written and recorded. -/
theorem stageTensor_cases (a : Area) (case : String) (role : Role) (t : Tensor) (fs : Files) :
    (∃ e, (a.stageTensor case role t).run fs = (.error e, fs)) ∨
      ∃ bytes, checkCase case = .ok () ∧ a.fileBytes case role t = .ok bytes ∧
        (a.stageTensor case role t).run fs =
          ((a.enter (a.tensorPath case role) bytes
            (·.record (a.entryOf case role t bytes))).run fs).map
              (·.map fun _ => a.tensorPath case role) id := by
  cases hc : checkCase case with
  | error e => exact Or.inl (stageTensor_refused (Or.inl (by simp [hc])) fs)
  | ok _ =>
    cases hb : a.fileBytes case role t with
    | error e => exact Or.inl (stageTensor_refused (Or.inr (by simp [hb])) fs)
    | ok bytes => exact Or.inr ⟨bytes, rfl, rfl, stageTensor_run hc hb fs⟩

/-- In a standing area that lists a manifest a tensor is written and recorded, or nothing is
changed. -/
theorem stageTensor_listed (hs : fs.Stands a.root) (h : a.Lists fs m) (case : String)
    (role : Role) (t : Tensor) :
    (∃ e, (a.stageTensor case role t).run fs = (.error e, fs)) ∨
      ∃ bytes, checkCase case = .ok () ∧ a.fileBytes case role t = .ok bytes ∧
        Files.admits a.root (a.tensorFile case role) = .ok () ∧
        fs.get? (location a.root ++ [a.tensorFile case role]) ≠ some .directory ∧
        (a.stageTensor case role t).run fs =
          (.ok (a.tensorPath case role), a.withEntry fs (a.tensorFile case role) bytes
            (m.record (a.entryOf case role t bytes))) := by
  rcases a.stageTensor_cases case role t fs with hrefused | ⟨bytes, hc, hb, hrun⟩
  · exact Or.inl hrefused
  · rw [hrun, tensorPath]
    rcases enter_listed hs h (a.isName_tensorFile (checkCase_ok hc).1 role)
      (a.tensorFile_ne_fixed manifest_fixed case role) bytes
      (·.record (a.entryOf case role t bytes)) with ⟨e, he⟩ | ⟨ha, hd, henter⟩
    · rw [he]
      exact Or.inl ⟨e, rfl⟩
    · rw [henter]
      exact Or.inr ⟨bytes, hc, hb, ha, hd, rfl⟩

theorem stageModel_run {source : ModelSource} {bytes : Bytes}
    (hb : source.serialized = .ok bytes) (fs : Files) :
    (a.stageModel source).run fs =
      ((a.enter (a.modelPath source) bytes fun m =>
        { m with model := some (modelEntryOf source bytes) }).run fs).map
          (·.map fun _ => a.modelPath source) id := by
  have hbytes : source.serialized.mapError Failure.modelInvalid = .ok bytes := by
    rw [hb]
    rfl
  rw [stageModel, Action.run_settle_bind, hbytes]
  dsimp only
  rw [Action.run_bind]
  rcases (a.enter _ bytes _).run fs with ⟨_ | _, _⟩ <;> rfl

theorem stageModel_refused {source : ModelSource}
    (h : ∀ bytes, source.serialized ≠ .ok bytes) (fs : Files) :
    ∃ e, (a.stageModel source).run fs = (.error e, fs) := by
  rw [stageModel, Action.run_settle_bind]
  cases hb : source.serialized with
  | error e => exact ⟨_, rfl⟩
  | ok bytes => exact absurd hb (h bytes)

theorem saveTensor_closes (a : Area) (j : Journal) (case : String) (role : Role) (t : Tensor)
    (fs : Files) :
    j.Closes "stage" ((a.stageTensor case role t).run fs)
      ((a.saveTensor j case role t).run fs) := by
  refine j.logged_run case "stage" ?_ fs
  refine .bind (.act _) fun _ => .bind (.act _) fun bytes => ?_
  refine .bind (.act _) fun _ => ?_
  exact .note_bind _ (.pure _)

theorem saveModel_closes (a : Area) (j : Journal) (source : ModelSource) (fs : Files) :
    j.Closes "save_model" ((a.stageModel source).run fs) ((a.saveModel j source).run fs) := by
  refine j.logged_run "" "save_model" ?_ fs
  refine .bind (.act _) fun bytes => ?_
  refine .bind (.act _) fun _ => ?_
  exact .note_bind _ (.pure _)

theorem clear_closes (a : Area) (j : Journal) (fs : Files) :
    j.Closes "clear" (a.reset.run fs) ((a.clear j).run fs) :=
  j.logged_run "" "clear" (.note_bind _ (.act _)) fs

section Silence

variable {j : Journal} (hj : j.path = none)

include hj

theorem saveTensor_silent (case : String) (role : Role) (t : Tensor) :
    a.saveTensor j case role t = a.stageTensor case role t :=
  Action.ext_run fun fs => (a.saveTensor_closes j case role t fs).silent hj

theorem saveModel_silent (source : ModelSource) : a.saveModel j source = a.stageModel source :=
  Action.ext_run fun fs => (a.saveModel_closes j source fs).silent hj

theorem clear_silent : a.clear j = a.reset :=
  Action.ext_run fun fs => (a.clear_closes j fs).silent hj

end Silence

end Area

end NetTrial
