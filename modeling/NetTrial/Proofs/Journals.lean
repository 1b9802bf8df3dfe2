import NetTrial.Proofs.Frames
/-!
# A journal that is kept elsewhere

A line of the journal is appended to one file, and directories may be made along its path.
Nothing else changes, so a journal whose path does not pass a directory leaves all that is in
the directory as it was.
-/

namespace NetTrial

open NetTrial.Path Text

namespace Files

variable {fs fs' : Files} {loc : Location}

theorem Grows.elsewhere {spots : Location → Prop} (h : fs.Grows spots fs') (hl : ¬ spots loc) :
    fs'.get? loc = fs.get? loc := by
  by_cases hn : fs.get? loc = none
  · rcases h.fresh loc hn with hn' | ⟨hs, -⟩
    · rw [hn, hn']
    · exact absurd hs hl
  · exact h.kept loc hn

theorem Placed.elsewhere {path : String} {bytes : Bytes} (h : fs.Placed path bytes fs')
    (hl : loc ≠ location path) : fs'.get? loc = fs.get? loc := by
  rw [h.same, get?_set fs h.below, if_neg hl]

end Files

namespace Journal

variable {σ α : Type} {j : Journal} {fs : Files} {loc top : Location} {step : String}
  {bare b : Bench σ}

/-- The path of the journal, if one is kept, passes a location. -/
def Passes (j : Journal) (loc : Location) : Prop := ∃ path, j.path = some path ∧ OnPath path loc

/-- The path of the journal, if one is kept, passes neither a directory nor what is in it. -/
def Apart (j : Journal) (top : Location) : Prop := ∀ loc, top <+: loc → ¬ j.Passes loc

theorem apart_of_silent (hj : j.path = none) (top : Location) : j.Apart top := by
  rintro loc - ⟨path, hp, -⟩
  rw [hj] at hp
  cases hp

/-- Writing a line changes only what the path of the journal passes. -/
theorem append_elsewhere (line : Line) (fs : Files) (h : ¬ j.Passes loc) :
    ((j.append line).run fs).2.get? loc = fs.get? loc := by
  rw [append]
  cases hj : j.path with
  | none => rfl
  | some path =>
    have hoff : ¬ OnPath path loc := fun hp => h ⟨path, hj, hp⟩
    have hparent : ((makeParent path).run fs).2.get? loc = fs.get? loc := by
      rw [makeParent]
      cases hup : parent? path with
      | none => rfl
      | some up =>
        simp only [Action.run_attempt]
        exact (Files.makeDirectories_grows fs up).elsewhere fun hp => hoff (onPath_parent hup hp)
    change ((makeParent path >>= fun _ => Action.edit path _).run fs).2.get? loc = _
    rw [Action.run_bind]
    rcases hrun : (makeParent path).run fs with ⟨e | _, grown⟩
    · rw [hrun] at hparent
      exact hparent
    · rw [hrun] at hparent
      change ((Action.edit path _).run grown).2.get? loc = _
      rw [Action.run_edit]
      cases ha : grown.append path (line.toJson.compactBytes ++ encodeChars ['\n']) with
      | error e => exact hparent
      | ok written =>
        obtain ⟨all, hplaced⟩ := Files.append_placed ha
        refine (hplaced.elsewhere ?_).trans hparent
        rintro rfl
        exact hoff (onPath_location path)

/-- All that is in a directory is left as it was, and no directory is lost. -/
structure Leaves (top : Location) (fs fs' : Files) : Prop where
  /-- The directory and all in it is as it was. -/
  same : ∀ loc, top <+: loc → fs'.get? loc = fs.get? loc
  /-- No directory is lost. -/
  directory : ∀ loc, fs.isDirectoryAt loc = true → fs'.isDirectoryAt loc = true

theorem append_leaves (hj : j.Apart top) (line : Line) (fs : Files) :
    Leaves top fs ((j.append line).run fs).2 :=
  ⟨fun loc hl => append_elsewhere line fs (hj loc hl), (j.append_spares line fs).directory⟩

theorem Closes.leaves {bare logged : Except Failure α × Files} (h : j.Closes step bare logged)
    (hj : j.Apart top) : Leaves top bare.2 logged.2 := by
  obtain ⟨line, -, hl⟩ := h
  rw [hl]
  exact append_leaves hj line bare.2

/-- The line behind a step changes only what the path of the journal passes. -/
theorem Closes.elsewhere {bare logged : Except Failure α × Files}
    (h : j.Closes step bare logged) (hl : ¬ j.Passes loc) :
    logged.2.get? loc = bare.2.get? loc := by
  obtain ⟨line, -, hlogged⟩ := h
  rw [hlogged]
  exact append_elsewhere line bare.2 hl

/-- A logged step fails when the bare one does. -/
theorem Closes.failed {bare logged : Except Failure α × Files} (h : j.Closes step bare logged)
    {e : Failure} (he : bare.1 = .error e) : logged.1 = .error e := by
  obtain ⟨line, -, hl⟩ := h
  rw [hl, he]
  rfl

/-- What a bench shows behind a logged step: beside what the bare step left, a line at most. -/
structure Logged (j : Journal) (bare b : Bench σ) : Prop where
  /-- The launcher is left alone. -/
  tools : b.tools = bare.tools
  /-- The journal is not on the ledger. -/
  ledger : b.ledger = bare.ledger
  /-- Only the file of the journal is changed. -/
  spares : bare.files.Spares j.IsAt b.files
  /-- Nothing comes or goes but along the path of the journal. -/
  elsewhere : ∀ loc, ¬ j.Passes loc → b.files.get? loc = bare.files.get? loc
  /-- Without a journal nothing is changed. -/
  silent : j.path = none → b = bare

theorem Logged.refl (j : Journal) (b : Bench σ) : j.Logged b b :=
  ⟨rfl, rfl, .refl _ _, fun _ _ => rfl, fun _ => rfl⟩

theorem ClosesOnBench.logged {bare logged : Except Failure α × Bench σ}
    (h : j.ClosesOnBench step bare logged) : j.Logged bare.2 logged.2 where
  tools := by
    obtain ⟨line, -, hl⟩ := h
    rw [hl]
  ledger := h.ledger
  spares := h.spares
  elsewhere _ hloc := h.closes.elsewhere hloc
  silent hj := by rw [h.silent hj]

/-- A logged step on files is one on the files of a bench. -/
theorem Closes.logged {bare logged : Except Failure α × Files} (h : j.Closes step bare logged)
    (b : Bench σ) : j.Logged { b with files := bare.2 } { b with files := logged.2 } where
  tools := rfl
  ledger := rfl
  spares := h.spares
  elsewhere _ hloc := h.elsewhere hloc
  silent hj := by rw [h.silent hj]

/-- A file that is kept elsewhere was left there by the bare step. -/
theorem Logged.file (h : j.Logged bare b) (hloc : ¬ j.IsAt loc) {bytes : Bytes} :
    b.files.get? loc = some (.file bytes) ↔ bare.files.get? loc = some (.file bytes) :=
  h.spares.file loc hloc bytes

end Journal

end NetTrial
