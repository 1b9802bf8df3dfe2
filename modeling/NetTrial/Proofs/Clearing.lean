import NetTrial.Proofs.Staging
/-!
# What clearing leaves

Clearing removes what its root leads to and makes the root again. When it succeeds the root
stands. What is below the root afterwards is told by three questions: whether the root led to
a directory before, what was below if it did not, and whether the path to the root itself
passes below the root. A path that leads nowhere removes nothing, and an empty path never
leads anywhere.
-/

namespace NetTrial

open NetTrial.Path Text

namespace Area

variable {a : Area} {fs fs' : Files}

/-- The root of an area leads to a directory. -/
def Leads (a : Area) (fs : Files) : Prop := fs.locate a.root = .ok (location a.root, .directory)

theorem leads_of_stands (hs : fs.Stands a.root) (hc : Files.checkPath a.root = .ok ()) :
    a.Leads fs := (Files.stands_iff_locate hc).mp hs

/-- What is removed before the root is made again. -/
theorem reset_run (a : Area) (fs : Files) :
    ∃ swept, fs.Shrinks swept ∧
      (∀ loc, ¬ location a.root <+: loc → swept.get? loc = fs.get? loc) ∧
      (∀ loc, Files.isBelow (location a.root) loc = true →
        (a.Leads fs → swept.get? loc = none) ∧ (¬ a.Leads fs → swept.get? loc = fs.get? loc)) ∧
      ((∃ e, a.reset.run fs = (.error e, swept)) ∨
        a.reset.run fs = ((swept.makeDirectories a.root).1.mapError (.os a.root),
          (swept.makeDirectories a.root).2)) := by
  rw [reset, Action.run_get_bind]
  cases hl : fs.locate a.root with
  | error e =>
    have hnot : ¬ a.Leads fs := by
      intro h
      rw [Leads, hl] at h
      cases h
    refine ⟨fs, Files.Shrinks.refl fs, fun _ _ => rfl,
      fun _ _ => ⟨fun h => absurd h hnot, fun _ => rfl⟩, ?_⟩
    cases e with
    | notFound => exact Or.inr (Action.run_attempt _ _ fs)
    | _ => exact Or.inl ⟨_, rfl⟩
  | ok found =>
    obtain ⟨loc, node⟩ := found
    obtain ⟨hloc, hg⟩ := Files.locate_location hl
    cases node with
    | directory =>
      have hleads : a.Leads fs := by
        rw [Leads, ← hloc]
        exact hl
      refine ⟨(fs.removeTree a.root).2, Files.removeTree_shrinks fs a.root,
        fun l hout => Files.removeTree_outside hout, fun l hb =>
        ⟨fun _ => Files.removeTree_below hleads hb, fun h => absurd hleads h⟩, ?_⟩
      change (∃ e, (Action.attempt a.root _ >>= fun _ => Action.attempt a.root _).run fs = _) ∨
        (Action.attempt a.root _ >>= fun _ => Action.attempt a.root _).run fs = _
      rw [Action.run_bind, Action.run_attempt]
      cases hr : (fs.removeTree a.root).1 with
      | error e => exact Or.inl ⟨_, rfl⟩
      | ok _ => exact Or.inr (Action.run_attempt _ _ _)
    | file bytes =>
      have hnot : ¬ a.Leads fs := by
        intro h
        rw [Leads, hl] at h
        cases h
      change ∃ swept, _ ∧ _ ∧ _ ∧
        ((∃ e, (Action.edit a.root _ >>= fun _ => Action.attempt a.root _).run fs = _) ∨
          (Action.edit a.root _ >>= fun _ => Action.attempt a.root _).run fs = _)
      rw [Action.run_bind, Action.run_edit]
      cases hr : fs.removeFile a.root with
      | error e =>
        exact ⟨fs, Files.Shrinks.refl fs, fun _ _ => rfl,
          fun _ _ => ⟨fun h => absurd h hnot, fun _ => rfl⟩, Or.inl ⟨_, rfl⟩⟩
      | ok swept =>
        have hswept := (Files.removeFile_ok hr).1
        -- the file at the root goes, and all else stays
        have hkept : ∀ l, l ≠ location a.root → swept.get? l = fs.get? l := by
          intro l hne
          rw [hswept, Files.get?_drop_of_ne fs hne]
        exact ⟨swept, hswept ▸ Files.shrinks_drop fs _,
          fun l hout => hkept l fun he => hout (he ▸ List.prefix_rfl), fun l hb =>
          ⟨fun h => absurd h hnot, fun _ => hkept l (Files.isBelow_iff.mp hb).2⟩,
          Or.inr (Action.run_attempt _ _ _)⟩

/-- Clearing the empty path succeeds and takes nothing away. -/
theorem reset_rootless (ha : a.root = "") (fs : Files) : a.reset.run fs = (.ok (), fs) := by
  have hlocate : fs.locate "" = .error .notFound := rfl
  rw [reset, Action.run_get_bind, ha, hlocate]
  exact (Action.run_attempt _ _ fs).trans rfl

/-- What is found below a root after clearing it, success or not, was there before. -/
theorem reset_old {loc : Location} {bytes : Bytes}
    (h : (a.reset.run fs).2.get? loc = some (.file bytes)) :
    fs.get? loc = some (.file bytes) := by
  obtain ⟨swept, hshrinks, -, -, hend⟩ := a.reset_run fs
  have hswept : swept.get? loc = some (.file bytes) := by
    rcases hend with ⟨e, hr⟩ | hr
    · rw [hr] at h
      exact h
    · rw [hr] at h
      exact (Files.makeDirectories_grows swept a.root).file h
  rcases hshrinks loc with hn | he
  · rw [hn] at hswept
    cases hswept
  · rw [← he, hswept]

/-- Clearing a root that stands takes every file below it, success or not. -/
theorem reset_no_file (hs : fs.Stands a.root) (hc : Files.checkPath a.root = .ok ())
    {loc : Location} (hb : Files.isBelow (location a.root) loc = true) (bytes : Bytes) :
    (a.reset.run fs).2.get? loc ≠ some (.file bytes) := by
  obtain ⟨swept, -, -, hbelow, hend⟩ := a.reset_run fs
  have hnone := (hbelow loc hb).1 (leads_of_stands hs hc)
  rcases hend with ⟨e, hr⟩ | hr
  · rw [hr, hnone]
    simp
  · rw [hr]
    intro hf
    have hfile := (Files.makeDirectories_grows swept a.root).file hf
    rw [hnone] at hfile
    cases hfile

/-- After a clearing that succeeded the root stands. -/
theorem reset_ok (h : a.reset.run fs = (.ok (), fs')) :
    fs'.Stands a.root ∧ ∃ swept : Files, swept.Grows (OnPath a.root) fs' ∧
      ∀ loc, Files.isBelow (location a.root) loc = true →
        (a.Leads fs → swept.get? loc = none) ∧
          (¬ a.Leads fs → swept.get? loc = fs.get? loc) := by
  obtain ⟨swept, -, -, hbelow, hend⟩ := a.reset_run fs
  rcases hend with ⟨e, hr⟩ | hr
  · rw [hr] at h
    cases h
  · rw [hr] at h
    cases hm : (swept.makeDirectories a.root).1 with
    | error e =>
      rw [hm] at h
      cases h
    | ok _ =>
      rw [hm] at h
      cases h
      refine ⟨?_, swept, Files.makeDirectories_grows swept a.root, hbelow⟩
      by_cases he : a.root = ""
      · rw [he]
        exact stands_empty _
      · exact Files.makeDirectories_stands he hm

/-! ## The manifest after clearing -/

/-- Nothing at the place of the manifest, or a manifest without tensors. -/
def RecordsNothing (a : Area) (fs : Files) : Prop :=
  fs.get? a.manifestSpot = none ∨ ∃ m, a.Says fs m ∧ m.tensors = []

theorem recordsNothing_congr (h : fs'.get? a.manifestSpot = fs.get? a.manifestSpot) :
    a.RecordsNothing fs' ↔ a.RecordsNothing fs := by
  simp only [RecordsNothing, Says, h]

theorem recordsNothing_iff (hs : fs.Stands a.root)
    (ha : Files.admits a.root manifestName = .ok ()) :
    a.RecordsNothing fs ↔ ∃ m, a.Lists fs m ∧ m.tensors = [] := by
  have hread := hs.read_join isName_manifest
  rw [ha] at hread
  constructor
  · rintro (hn | ⟨m, hsays, ht⟩)
    · rw [manifestSpot] at hn
      rw [hn] at hread
      exact ⟨.empty, lists_iff.mpr (Or.inr ⟨hread, rfl⟩), rfl⟩
    · exact ⟨m, hsays.lists hs ha, ht⟩
  · rintro ⟨m, hl, ht⟩
    rcases lists_iff.mp hl with ⟨bytes, cs, hb, hd, hm⟩ | ⟨hn, -⟩
    · have hg := ((Files.read_join_eq_ok isName_manifest).mp hb).2.2
      exact Or.inr ⟨m, ⟨bytes, cs, hg, hd, hm⟩, ht⟩
    · rw [manifestPath_eq, hread] at hn
      left
      rw [manifestSpot]
      cases hg : fs.get? (location a.root ++ [manifestName]) with
      | none => rfl
      | some node =>
        rw [hg] at hn
        cases node <;> cases hn

theorem isBelow_manifestSpot (a : Area) :
    Files.isBelow (location a.root) a.manifestSpot = true := by
  rw [Files.isBelow_iff]
  refine ⟨⟨[manifestName], rfl⟩, ?_⟩
  intro he
  have hl := congrArg List.length he
  simp [manifestSpot] at hl

/-- A root whose path does not move up does not pass where its manifest belongs. -/
theorem not_onPath_manifestSpot (h : ".." ∉ pieces a.root) : ¬ OnPath a.root a.manifestSpot := by
  intro hp
  have hlen := (onPath_isInitial h hp).length_le
  rw [manifestSpot, List.length_append, List.length_singleton] at hlen
  omega

/-- Clearing will leave an area without records: its manifest can be spoken of, the root leads
to a directory or nothing is recorded where it would lead, and the path to the root does not
pass where the manifest belongs. -/
structure Sweeps (a : Area) (fs : Files) : Prop where
  /-- The path of the manifest is one. -/
  spoken : Files.admits a.root manifestName = .ok ()
  /-- There is a directory to be emptied, or nothing to be removed. -/
  emptied : a.Leads fs ∨ a.RecordsNothing fs
  /-- No directory is made in place of the manifest. -/
  apart : ¬ OnPath a.root a.manifestSpot

/-- A clearing that succeeded leaves a manifest without tensors exactly when it sweeps. -/
theorem reset_lists_iff (h : a.reset.run fs = (.ok (), fs')) :
    (∃ m, a.Lists fs' m ∧ m.tensors = []) ↔ a.Sweeps fs := by
  obtain ⟨hstands, swept, hgrows, hbelow⟩ := reset_ok h
  obtain ⟨hgone, hsame⟩ := hbelow _ a.isBelow_manifestSpot
  constructor
  · rintro ⟨m, hl, ht⟩
    have ha := hl.admits hstands
    have hr : a.RecordsNothing fs' := (recordsNothing_iff hstands ha).mpr ⟨m, hl, ht⟩
    refine ⟨ha, ?_, ?_⟩
    · by_cases hf : a.Leads fs
      · exact Or.inl hf
      · right
        rw [← recordsNothing_congr (hsame hf)]
        by_cases hn : swept.get? a.manifestSpot = none
        · exact Or.inl hn
        · exact (recordsNothing_congr (hgrows.kept _ hn)).mp hr
    · intro hp
      have hd := Files.isDirectoryAt_iff.mp (hstands.onPath hp)
      rcases hr with hn | ⟨m, ⟨bytes, cs, hg, -⟩, -⟩
      · rw [hd] at hn
        cases hn
      · rw [hd] at hg
        cases hg
  · rintro ⟨ha, hf, hp⟩
    rw [← recordsNothing_iff hstands ha]
    by_cases hn : swept.get? a.manifestSpot = none
    · left
      rcases hgrows.fresh _ hn with hn' | ⟨hp', -⟩
      · exact hn'
      · exact absurd hp' hp
    · rw [recordsNothing_congr (hgrows.kept _ hn)]
      have hnot : ¬ a.Leads fs := fun hl => hn (hgone hl)
      exact (recordsNothing_congr (hsame hnot)).mpr (hf.resolve_left hnot)

end Area

end NetTrial
