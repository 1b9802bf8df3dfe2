import NetTrial.Proofs.Tree
/-!
# Making and removing directories

Making directories adds directories along the path and nothing else; when it succeeds the
path stands. Where the directory stands already nothing happens. Removing a directory takes
all below it, and may leave the directory itself when its name leads through what was taken.
-/

namespace NetTrial.Files

open NetTrial.Path

variable {fs fs' : Files} {path : String}

/-! ## Growing -/

/-- Nothing changes but that directories are made where nothing was, at some locations. -/
structure Grows (spots : Location → Prop) (fs fs' : Files) : Prop where
  /-- What was there stays. -/
  kept : ∀ loc, fs.get? loc ≠ none → fs'.get? loc = fs.get? loc
  /-- What is new is a directory. -/
  fresh : ∀ loc, fs.get? loc = none →
    fs'.get? loc = none ∨ spots loc ∧ fs'.get? loc = some .directory

variable {spots : Location → Prop}

theorem Grows.refl (spots : Location → Prop) (fs : Files) : fs.Grows spots fs :=
  ⟨fun _ _ => rfl, fun _ h => Or.inl h⟩

theorem Grows.trans {fs'' : Files} (h : fs.Grows spots fs') (h' : fs'.Grows spots fs'') :
    fs.Grows spots fs'' := by
  refine ⟨fun loc hloc => ?_, fun loc hloc => ?_⟩
  · have hk := h.kept loc hloc
    rw [h'.kept loc (by rw [hk]; exact hloc), hk]
  · rcases h.fresh loc hloc with hn | ⟨hs, hd⟩
    · exact h'.fresh loc hn
    · refine Or.inr ⟨hs, ?_⟩
      rw [h'.kept loc (by simp [hd]), hd]

theorem Grows.mono {spots' : Location → Prop} (h : fs.Grows spots fs')
    (hs : ∀ loc, spots loc → spots' loc) : fs.Grows spots' fs' :=
  ⟨h.kept, fun loc hloc => (h.fresh loc hloc).imp_right fun hd => ⟨hs loc hd.1, hd.2⟩⟩

theorem Grows.isDirectoryAt (h : fs.Grows spots fs') {d : Location}
    (hd : fs.isDirectoryAt d = true) : fs'.isDirectoryAt d = true := by
  rw [isDirectoryAt_iff] at hd ⊢
  rw [h.kept d (by simp [hd]), hd]

/-- Every file was there before. -/
theorem Grows.file (h : fs.Grows spots fs') {loc : Location} {bytes : Text.Bytes}
    (hf : fs'.get? loc = some (.file bytes)) : fs.get? loc = some (.file bytes) := by
  by_cases hn : fs.get? loc = none
  · rcases h.fresh loc hn with hx | ⟨-, hx⟩
    · rw [hx] at hf
      cases hf
    · rw [hx] at hf
      cases hf
  · rw [← h.kept loc hn, hf]

/-- A standing path passes directories only. -/
theorem Stands.onPath (h : fs.Stands path) {loc : Location} (hl : OnPath path loc) :
    fs.isDirectoryAt loc = true := by
  obtain ⟨ps, ⟨qs, hps⟩, rfl⟩ := hl
  obtain ⟨hf, hd⟩ := h
  rw [← hps] at hf
  obtain ⟨l, hfront, hback⟩ := follow_append_eq_ok.mp hf
  rw [← follow_eq_walk hfront]
  cases qs with
  | nil =>
    have hl : l = location path := Except.ok.inj hback
    rw [hl]
    exact hd
  | cons q qs => exact (follow_cons_eq_ok.mp hback).1

theorem grows_set_directory {spot : Location} (hne : spot ≠ []) (hn : fs.get? spot = none)
    (hs : spots spot) : fs.Grows spots (fs.set spot .directory) := by
  have hget := get?_set fs hne .directory
  refine ⟨fun loc hloc => ?_, fun loc hloc => ?_⟩
  · rw [hget, if_neg]
    rintro rfl
    exact hloc hn
  · rw [hget]
    by_cases hl : loc = spot
    · subst hl
      exact Or.inr ⟨hs, if_pos rfl⟩
    · rw [if_neg hl]
      exact Or.inl hloc

/-- A directory that is found stands. -/
theorem stands_of_isDirectory (h : fs.isDirectory path = true) : fs.Stands path := by
  rw [isDirectory] at h
  cases hl : fs.locate path with
  | error e =>
    rw [hl] at h
    cases h
  | ok found =>
    obtain ⟨loc, _ | _⟩ := found
    · rw [hl] at h
      cases h
    · obtain ⟨hloc, hg⟩ := locate_location hl
      rw [hloc] at hl
      exact ⟨(locate_eq_ok.mp hl).2.1, isDirectoryAt_iff.mpr hg⟩

/-- A directory that is made stands. -/
theorem makeDirectory_stands (h : fs.makeDirectory path = .ok fs') :
    fs.Grows (OnPath path) fs' ∧ fs'.Stands path := by
  obtain ⟨hfs, hne, -, hn⟩ := makeDirectory_ok h
  have grows : fs.Grows (OnPath path) fs' := by
    rw [hfs]
    exact grows_set_directory hne hn (onPath_location path)
  have hd : fs'.isDirectoryAt (location path) = true := by
    rw [isDirectoryAt_iff, hfs, get?_set fs hne, if_pos rfl]
  refine ⟨grows, ?_, hd⟩
  rw [makeDirectory] at h
  cases ht : fs.target path with
  | error e =>
    rw [ht] at h
    cases h
  | ok t =>
    rw [ht] at h
    cases t with
    | itself piece => cases h
    | entry directory name slash =>
      exact (target_entry ht).stands (fun d => grows.isDirectoryAt) hd

/-- A directory that is ensured stands. -/
theorem ensureDirectory_ok (h : fs.ensureDirectory path = .ok fs') :
    fs.Grows (OnPath path) fs' ∧ fs'.Stands path := by
  rw [ensureDirectory] at h
  cases hm : fs.makeDirectory path with
  | ok made =>
    rw [hm] at h
    cases h
    exact makeDirectory_stands hm
  | error e =>
    rw [hm] at h
    by_cases he : e = .alreadyExists
    · subst he
      by_cases hd : fs.isDirectory path = true
      · rw [hd] at h
        cases h
        exact ⟨Grows.refl _ _, stands_of_isDirectory hd⟩
      · simp only [hd] at h
        cases h
    · cases e <;> first | exact absurd rfl he | cases h

/-- What one level of making directories does. -/
theorem makeDirectoriesFrom_succ (fuel : Nat) (fs : Files) (path : String) :
    (path = "" ∨ parent? path = none) ∧
        makeDirectoriesFrom (fuel + 1) fs path = (.ok (), fs) ∨
      path ≠ "" ∧ ∃ up, parent? path = some up ∧
        makeDirectoriesFrom (fuel + 1) fs path =
          match fs.ensureDirectory path with
          | .ok fs => (.ok (), fs)
          | .error .notFound =>
            match makeDirectoriesFrom fuel fs up with
            | (.error e, fs) => (.error e, fs)
            | (.ok (), fs) =>
              match fs.ensureDirectory path with
              | .ok fs => (.ok (), fs)
              | .error e => (.error e, fs)
          | .error e => (.error e, fs) := by
  rw [makeDirectoriesFrom.eq_def]
  simp only
  split
  · exact Or.inl ⟨Or.inl rfl, rfl⟩
  · rename_i hup
    exact Or.inl ⟨Or.inr hup, rfl⟩
  · rename_i path up hne hup
    exact Or.inr ⟨hne, up, hup, rfl⟩

theorem makeDirectoriesFrom_grows (fuel : Nat) (fs : Files) (path : String) :
    fs.Grows (OnPath path) (makeDirectoriesFrom fuel fs path).2 := by
  induction fuel generalizing fs path with
  | zero => exact Grows.refl _ fs
  | succ fuel ih =>
    rcases makeDirectoriesFrom_succ fuel fs path with ⟨-, hm⟩ | ⟨-, up, hup, hm⟩
    · rw [hm]
      exact Grows.refl _ fs
    · rw [hm]
      cases he : fs.ensureDirectory path with
      | ok made => exact (ensureDirectory_ok he).1
      | error e =>
        by_cases hn : e = .notFound
        · subst hn
          have above : fs.Grows (OnPath path) (makeDirectoriesFrom fuel fs up).2 :=
            (ih fs up).mono fun loc => onPath_parent hup
          rcases hr : makeDirectoriesFrom fuel fs up with ⟨_ | _, fs1⟩
          · rw [hr] at above
            exact above
          · rw [hr] at above
            cases he1 : fs1.ensureDirectory path with
            | ok fs2 =>
              simp only [he1]
              exact above.trans (ensureDirectory_ok he1).1
            | error e =>
              simp only [he1]
              exact above
        · cases e <;> first | exact absurd rfl hn | exact Grows.refl _ fs

/-- Making directories adds directories on the path and nothing else. -/
theorem makeDirectories_grows (fs : Files) (path : String) :
    fs.Grows (OnPath path) (fs.makeDirectories path).2 :=
  makeDirectoriesFrom_grows _ fs path

/-- Pieces that change nothing are followed from any directory. -/
theorem follow_idle {loc : Location} (hd : fs.isDirectoryAt loc = true) {ps : List String}
    (h : ∀ p ∈ ps, isIdle p = true) : fs.follow loc ps = .ok loc := by
  induction ps with
  | nil => rfl
  | cons p ps ih =>
    have hp := h p List.mem_cons_self
    refine follow_cons_eq_ok.mpr ⟨hd, ?_, Or.inl hp⟩
    rw [step_idle hp]
    exact ih fun q hq => h q (List.mem_cons_of_mem p hq)

theorem stands_of_idle (fs : Files) (h : ∀ p ∈ pieces path, isIdle p = true) :
    fs.Stands path := by
  have hl : location path = [] := walk_idle [] h
  rw [Stands, hl]
  exact ⟨follow_idle (isDirectoryAt_nil fs) h, isDirectoryAt_nil fs⟩

/-- A directory that was made with those above it stands. -/
theorem makeDirectories_stands (hne : path ≠ "")
    (h : (fs.makeDirectories path).1 = .ok ()) : (fs.makeDirectories path).2.Stands path := by
  rw [makeDirectories] at h ⊢
  rcases makeDirectoriesFrom_succ (pieces path).length fs path with
    ⟨hi, hm⟩ | ⟨-, up, hup, hm⟩
  · rw [hm]
    exact stands_of_idle fs (idle_of_parent_none (hi.resolve_left hne))
  · rw [hm] at h ⊢
    cases he : fs.ensureDirectory path with
    | ok made => exact (ensureDirectory_ok he).2
    | error e =>
      rw [he] at h
      by_cases hn : e = .notFound
      · subst hn
        rcases hr : makeDirectoriesFrom (pieces path).length fs up with ⟨_ | _, fs1⟩
        · rw [hr] at h
          cases h
        · rw [hr] at h
          simp only at h
          cases he1 : fs1.ensureDirectory path with
          | ok fs2 =>
            simp only [he1]
            exact (ensureDirectory_ok he1).2
          | error e =>
            rw [he1] at h
            cases h
      · cases e <;> first | exact absurd rfl hn | cases h

/-- The target of a standing path is there already. -/
theorem Stands.makeDirectory (h : fs.Stands path) (hc : checkPath path = .ok ()) :
    fs.makeDirectory path = .error .alreadyExists := by
  obtain ⟨hf, hd⟩ := h
  obtain ⟨count, hp⟩ := pieces_eq_named path
  rw [Files.makeDirectory]
  cases hl : (named path).getLast? with
  | none =>
    have hnamed : ((pieces path).reverse.dropWhile (· == "")).reverse.getLast? = none := hl
    simp only [target, hc, hnamed, bind, Except.bind]
    rfl
  | some last =>
    obtain ⟨front, hfront⟩ := List.getLast?_eq_some_iff.mp hl
    rw [target_of_named hc hfront]
    rw [hp, hfront] at hf
    obtain ⟨_, hnamed, -⟩ := follow_append_eq_ok.mp hf
    obtain ⟨d, hx, hy⟩ := follow_append_eq_ok.mp hnamed
    obtain ⟨hdir, hstep, hlast⟩ := follow_cons_eq_ok.mp hy
    simp only [hx, Except.bind, hdir, if_true, bind]
    by_cases hdots : last = "." ∨ last = ".."
    · rw [if_pos hdots]
    · rw [not_or] at hdots
      have hidle : isIdle last = false := by
        simp [isIdle, named_getLast_ne hl, hdots.1]
      rw [if_neg (not_or.mpr hdots)]
      rcases hlast with hi | hb | ⟨hn, hs⟩
      · rw [hidle] at hi
        cases hi
      · exact absurd hb hdots.2
      · simp only [hn, hs, if_true]

/-- Where a directory stands, making it with those above changes nothing. -/
theorem Stands.makeDirectories (h : fs.Stands path)
    (hc : checkPath path = .ok () ∨ path = "") : fs.makeDirectories path = (.ok (), fs) := by
  rw [Files.makeDirectories]
  rcases makeDirectoriesFrom_succ (pieces path).length fs path with
    ⟨-, hm⟩ | ⟨hne, up, -, hm⟩
  · exact hm
  · have hc := hc.resolve_right hne
    have hl := (stands_iff_locate hc).mp h
    have hd : fs.isDirectory path = true := by rw [isDirectory, hl]
    rw [hm, ensureDirectory, h.makeDirectory hc]
    simp only [hd, if_true]

/-! ## Removing -/

theorem isBelow_iff {top loc : Location} :
    isBelow top loc = true ↔ top <+: loc ∧ loc ≠ top := by
  simp [isBelow]

theorem ne_nil_of_isBelow {top loc : Location} (h : isBelow top loc = true) : loc ≠ [] := by
  rintro rfl
  obtain ⟨hp, hne⟩ := (isBelow_iff).mp h
  exact hne (List.prefix_nil.mp hp).symm

/-- Nothing changes but that nodes go. -/
def Shrinks (fs fs' : Files) : Prop :=
  ∀ loc, fs'.get? loc = none ∨ fs'.get? loc = fs.get? loc

theorem Shrinks.refl (fs : Files) : fs.Shrinks fs := fun _ => Or.inr rfl

theorem Shrinks.trans {fs'' : Files} (h : fs.Shrinks fs') (h' : fs'.Shrinks fs'') :
    fs.Shrinks fs'' := by
  intro loc
  rcases h' loc with hn | he
  · exact Or.inl hn
  · rw [he]
    exact h loc

theorem shrinks_drop (fs : Files) (test : Location → Bool) : fs.Shrinks (fs.drop test) := by
  intro loc
  cases ht : test loc with
  | false => exact Or.inr (fs.get?_drop_of_kept ht)
  | true =>
    by_cases hl : loc = []
    · exact Or.inr (by rw [hl, get?_nil, get?_nil])
    · exact Or.inl (by rw [get?_drop fs test hl, if_pos ht])

/-- A directory that is asked to go loses what is below it, and may go itself. -/
theorem removeTree_directory {loc : Location} (h : fs.locate path = .ok (loc, .directory)) :
    (fs.removeTree path).2 = fs.drop (isBelow loc) ∨
      (fs.removeTree path).2 = (fs.drop (isBelow loc)).drop (· == loc) := by
  rw [removeTree, h]
  simp only
  cases (fs.drop (isBelow loc)).target path with
  | error e => cases e <;> exact Or.inl rfl
  | ok t =>
    cases t with
    | itself piece => exact Or.inl rfl
    | entry directory name slash => exact Or.inr rfl

/-- Where no directory is asked to go, nothing changes. -/
theorem removeTree_elsewhere (h : ∀ loc, fs.locate path ≠ .ok (loc, .directory)) :
    (fs.removeTree path).2 = fs := by
  rw [removeTree]
  cases hl : fs.locate path with
  | error e => rfl
  | ok found =>
    obtain ⟨loc, _ | _⟩ := found
    · rfl
    · exact absurd hl (h loc)

theorem removeTree_shrinks (fs : Files) (path : String) : fs.Shrinks (fs.removeTree path).2 := by
  by_cases h : ∃ loc, fs.locate path = .ok (loc, .directory)
  · obtain ⟨loc, h⟩ := h
    have first := shrinks_drop fs (isBelow loc)
    rcases removeTree_directory h with he | he
    · exact he ▸ first
    · exact he ▸ first.trans (shrinks_drop _ _)
  · rw [removeTree_elsewhere (not_exists.mp h)]
    exact Shrinks.refl fs

/-- What is not in a directory stays when the directory is asked to go. -/
theorem removeTree_outside {l : Location} (h : ¬ location path <+: l) :
    (fs.removeTree path).2.get? l = fs.get? l := by
  by_cases hd : ∃ loc, fs.locate path = .ok (loc, .directory)
  · obtain ⟨loc, hd⟩ := hd
    obtain ⟨rfl, -⟩ := locate_location hd
    have hbelow : isBelow (location path) l = false := by
      rw [Bool.eq_false_iff]
      exact fun hb => h ((isBelow_iff).mp hb).1
    have hhere : l ≠ location path := fun he => h (he ▸ List.prefix_rfl)
    have kept := get?_drop_of_kept fs hbelow
    rcases removeTree_directory hd with he | he
    · rw [he, kept]
    · rw [he, get?_drop_of_ne _ hhere, kept]
  · rw [removeTree_elsewhere (not_exists.mp hd)]

/-- A directory that is asked to go loses all below it, whatever is answered. -/
theorem removeTree_below {loc l : Location} (h : fs.locate path = .ok (loc, .directory))
    (hb : isBelow loc l = true) : (fs.removeTree path).2.get? l = none := by
  have emptied : (fs.drop (isBelow loc)).get? l = none := by
    rw [get?_drop fs (isBelow loc) (ne_nil_of_isBelow hb), if_pos hb]
  rcases removeTree_directory h with he | he
  · rw [he, emptied]
  · have gone := shrinks_drop (fs.drop (isBelow loc)) (· == loc) l
    rw [emptied, or_self] at gone
    rw [he, gone]

end NetTrial.Files
