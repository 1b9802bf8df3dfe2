import NetTrial.Proofs.Journals
/-!
# What a path sees

An operation looks at the locations that its path passes and at no others. Two states of the
files that agree on these locations give the same answer to every question, and a change that
is made by the path leaves them agreeing wherever they agreed before.
-/

namespace NetTrial.Files

open NetTrial.Path Text

variable {fs fs' fs'' : Files} {seen : Location → Prop} {path : String} {loc : Location}

/-! ## Agreement -/

/-- Two states of the files have the same at every location that is seen. -/
def Agree (seen : Location → Prop) (fs fs' : Files) : Prop :=
  ∀ loc, seen loc → fs.get? loc = fs'.get? loc

theorem Agree.refl (seen : Location → Prop) (fs : Files) : fs.Agree seen fs := fun _ _ => rfl

theorem Agree.symm (h : fs.Agree seen fs') : fs'.Agree seen fs := fun loc hl => (h loc hl).symm

theorem Agree.trans (h : fs.Agree seen fs') (h' : fs'.Agree seen fs'') : fs.Agree seen fs'' :=
  fun loc hl => (h loc hl).trans (h' loc hl)

theorem Agree.mono {fewer : Location → Prop} (h : fs.Agree seen fs')
    (hs : ∀ loc, fewer loc → seen loc) : fs.Agree fewer fs' := fun loc hl => h loc (hs loc hl)

theorem Agree.isDirectoryAt (h : fs.Agree seen fs') (hl : seen loc) :
    fs.isDirectoryAt loc = fs'.isDirectoryAt loc := by
  rw [Files.isDirectoryAt, h loc hl, Files.isDirectoryAt]

/-- The same node in the same place is seen as the same. -/
theorem Agree.set (h : fs.Agree seen fs') {spot : Location} (hne : spot ≠ []) (node : Node) :
    (fs.set spot node).Agree seen (fs'.set spot node) := by
  intro loc hl
  rw [get?_set fs hne, get?_set fs' hne, h loc hl]

theorem Agree.drop (h : fs.Agree seen fs') (test : Location → Bool) :
    (fs.drop test).Agree seen (fs'.drop test) := by
  intro loc hl
  by_cases hn : loc = []
  · rw [hn, get?_nil, get?_nil]
  · rw [get?_drop fs test hn, get?_drop fs' test hn, h loc hl]

/-- All that a path passes is seen. -/
def Visible (seen : Location → Prop) (path : String) : Prop := ∀ loc, OnPath path loc → seen loc

theorem Visible.location (h : Visible seen path) : seen (location path) :=
  h _ (onPath_location path)

theorem Visible.parent (h : Visible seen path) {up : String} (hup : parent? path = some up) :
    Visible seen up := fun loc hl => h loc (onPath_parent hup hl)

/-! ## Following -/

/-- Pieces are followed alike where directories and entries are in the same places. -/
theorem follow_congr {ps : List String} (h : ∀ qs, qs <+: ps →
      fs.isDirectoryAt (walk loc qs) = fs'.isDirectoryAt (walk loc qs) ∧
        (fs.get? (walk loc qs)).isSome = (fs'.get? (walk loc qs)).isSome) :
    fs.follow loc ps = fs'.follow loc ps := by
  induction ps generalizing loc with
  | nil => rfl
  | cons piece rest ih =>
    have hnext : ∀ next, next = step loc piece → fs.follow next rest = fs'.follow next rest := by
      rintro next rfl
      refine ih fun qs hqs => ?_
      exact h (piece :: qs) (List.cons_prefix_cons.mpr ⟨rfl, hqs⟩)
    have hhere : fs.isDirectoryAt loc = fs'.isDirectoryAt loc := (h [] List.nil_prefix).1
    simp only [follow, hhere]
    by_cases hi : isIdle piece = true
    · rw [if_pos hi, if_pos hi, hnext loc (step_idle hi loc).symm]
    · by_cases hb : piece = ".."
      · have hup : loc.dropLast = step loc piece := by rw [step, if_neg hi, if_pos hb]
        rw [if_neg hi, if_pos hb, if_neg hi, if_pos hb, hnext _ hup]
      · have hdown : loc ++ [piece] = step loc piece := by rw [step, if_neg hi, if_neg hb]
        have hentry := (h [piece] (List.cons_prefix_cons.mpr ⟨rfl, List.nil_prefix⟩)).2
        have hwalk : walk loc [piece] = loc ++ [piece] := hdown.symm
        rw [hwalk] at hentry
        rw [if_neg hi, if_neg hb, if_neg hi, if_neg hb, hentry, hnext _ hdown]

theorem Agree.follow (h : fs.Agree seen fs') (hv : Visible seen path) {ps : List String}
    (hp : ps <+: pieces path) : fs.follow [] ps = fs'.follow [] ps := by
  refine follow_congr fun qs hqs => ?_
  have hseen : seen (walk [] qs) := hv _ ⟨qs, hqs.trans hp, rfl⟩
  exact ⟨h.isDirectoryAt hseen, by rw [h _ hseen]⟩

theorem Agree.stands (h : fs.Agree seen fs') (hv : Visible seen path) (hs : fs.Stands path) :
    fs'.Stands path := by
  obtain ⟨hf, hd⟩ := hs
  rw [h.follow hv List.prefix_rfl] at hf
  rw [h.isDirectoryAt hv.location] at hd
  exact ⟨hf, hd⟩

/-! ## Asking -/

theorem Agree.locate (h : fs.Agree seen fs') (hv : Visible seen path) :
    fs.locate path = fs'.locate path := by
  rw [Files.locate, Files.locate, h.follow hv List.prefix_rfl]
  cases hf : fs'.follow [] (pieces path) with
  | error e => rfl
  | ok loc =>
    have hloc : loc = location path := follow_eq_walk hf
    change ((checkPath path).bind fun _ => _) = (checkPath path).bind fun _ => _
    simp only [bind, Except.bind, hloc, h _ hv.location]

theorem Agree.pathExists (h : fs.Agree seen fs') (hv : Visible seen path) :
    fs.pathExists path = fs'.pathExists path := by
  rw [Files.pathExists, h.locate hv, Files.pathExists]

theorem Agree.isFile (h : fs.Agree seen fs') (hv : Visible seen path) :
    fs.isFile path = fs'.isFile path := by
  rw [Files.isFile, h.locate hv, Files.isFile]

theorem Agree.isDirectory (h : fs.Agree seen fs') (hv : Visible seen path) :
    fs.isDirectory path = fs'.isDirectory path := by
  rw [Files.isDirectory, h.locate hv, Files.isDirectory]

theorem Agree.read (h : fs.Agree seen fs') (hv : Visible seen path) :
    fs.read path = fs'.read path := by
  rw [Files.read, h.locate hv, Files.read]

theorem Agree.readChars (h : fs.Agree seen fs') (hv : Visible seen path) :
    fs.readChars path = fs'.readChars path := by
  rw [Files.readChars, h.read hv, Files.readChars]

/-- The pieces before the last named one are the first of a path. -/
theorem dropLast_named_isInitial (path : String) : (named path).dropLast <+: pieces path := by
  obtain ⟨count, hp⟩ := pieces_eq_named path
  rw [hp]
  exact (List.dropLast_prefix _).trans (List.prefix_append _ _)

theorem Agree.target (h : fs.Agree seen fs') (hv : Visible seen path) :
    fs.target path = fs'.target path := by
  have hinit := dropLast_named_isInitial path
  have hfollow := h.follow hv hinit
  rw [named] at hinit hfollow
  simp only [Files.target, hfollow]
  cases hl : ((pieces path).reverse.dropWhile (· == "")).reverse.getLast? with
  | none => rfl
  | some last =>
    cases hf : fs'.follow [] ((pieces path).reverse.dropWhile (· == "")).reverse.dropLast with
    | error e => rfl
    | ok directory =>
      have hseen : seen directory := hv _ ⟨_, hinit, follow_eq_walk hf⟩
      change ((checkPath path).bind fun _ => _) = (checkPath path).bind fun _ => _
      simp only [bind, Except.bind, h.isDirectoryAt hseen]

theorem Agree.get?_entry (h : fs.Agree seen fs') (hv : Visible seen path) {directory : Location}
    {name : String} {slash : Bool} (ht : fs.target path = .ok (.entry directory name slash)) :
    fs.get? (directory ++ [name]) = fs'.get? (directory ++ [name]) := by
  rw [(target_entry ht).location_eq]
  exact h _ hv.location

theorem Agree.writable (h : fs.Agree seen fs') (hv : Visible seen path) :
    fs.writable path = fs'.writable path := by
  rw [Files.writable, Files.writable, ← h.target hv]
  cases ht : fs.target path with
  | error e => rfl
  | ok t =>
    cases t with
    | itself piece => rfl
    | entry directory name slash =>
      simp only [bind, Except.bind, h.get?_entry hv ht]

/-! ## Changing -/

/-- The same refusal of a change, or changed files that agree. -/
inductive Alike (seen : Location → Prop) : Except OsError Files → Except OsError Files → Prop where
  /-- The change is refused for one cause. -/
  | refused (cause : OsError) : Alike seen (.error cause) (.error cause)
  /-- The change is made. -/
  | made {fs fs' : Files} : fs.Agree seen fs' → Alike seen (.ok fs) (.ok fs')

theorem Agree.write (h : fs.Agree seen fs') (hv : Visible seen path) (bytes : Bytes) :
    Alike seen (fs.write path bytes) (fs'.write path bytes) := by
  rw [Files.write, Files.write, ← h.writable hv]
  cases hw : fs.writable path with
  | error e => exact .refused e
  | ok found => exact .made (h.set (writable_location hw).2.1 _)

theorem Agree.makeDirectory (h : fs.Agree seen fs') (hv : Visible seen path) :
    Alike seen (fs.makeDirectory path) (fs'.makeDirectory path) := by
  rw [Files.makeDirectory, Files.makeDirectory, ← h.target hv]
  cases ht : fs.target path with
  | error e => exact .refused e
  | ok t =>
    cases t with
    | itself piece => exact .refused .alreadyExists
    | entry directory name slash =>
      simp only [bind, Except.bind, ← h.get?_entry hv ht]
      by_cases hs : (fs.get? (directory ++ [name])).isSome = true
      · rw [if_pos hs, if_pos hs]
        exact .refused .alreadyExists
      · rw [if_neg hs, if_neg hs]
        exact .made (h.set (by simp) _)

theorem Agree.ensureDirectory (h : fs.Agree seen fs') (hv : Visible seen path) :
    Alike seen (fs.ensureDirectory path) (fs'.ensureDirectory path) := by
  rw [Files.ensureDirectory, Files.ensureDirectory, ← h.isDirectory hv]
  have hmake := h.makeDirectory hv
  generalize fs.makeDirectory path = made at hmake
  generalize fs'.makeDirectory path = made' at hmake
  cases hmake with
  | made hmade => exact .made hmade
  | refused cause =>
    by_cases hc : cause = .alreadyExists
    · subst hc
      by_cases hd : fs.isDirectory path = true
      · simp only [hd, if_true]
        exact .made h
      · simp only [hd]
        exact .refused .alreadyExists
    · cases cause <;> first | exact absurd rfl hc | exact .refused _

theorem Agree.makeDirectoriesFrom (h : fs.Agree seen fs') (hv : Visible seen path) (fuel : Nat) :
    (makeDirectoriesFrom fuel fs path).1 = (makeDirectoriesFrom fuel fs' path).1 ∧
      (makeDirectoriesFrom fuel fs path).2.Agree seen (makeDirectoriesFrom fuel fs' path).2 := by
  induction fuel generalizing fs fs' path with
  | zero => exact ⟨rfl, h⟩
  | succ fuel ih =>
    rcases makeDirectoriesFrom_succ fuel fs path with ⟨hend, hm⟩ | ⟨hne, up, hup, hm⟩
    · rcases makeDirectoriesFrom_succ fuel fs' path with ⟨-, hm'⟩ | ⟨hne, up, hup, -⟩
      · rw [hm, hm']
        exact ⟨rfl, h⟩
      · rcases hend with hend | hend
        · exact absurd hend hne
        · rw [hend] at hup
          cases hup
    · rcases makeDirectoriesFrom_succ fuel fs' path with ⟨hend, -⟩ | ⟨-, up', hup', hm'⟩
      · rcases hend with hend | hend
        · exact absurd hend hne
        · rw [hend] at hup
          cases hup
      rw [hup] at hup'
      cases hup'
      rw [hm, hm']
      have hfirst := h.ensureDirectory hv
      generalize fs.ensureDirectory path = first at hfirst
      generalize fs'.ensureDirectory path = first' at hfirst
      cases hfirst with
      | made hmade => exact ⟨rfl, hmade⟩
      | refused cause =>
        by_cases hc : cause = .notFound
        · subst hc
          obtain ⟨hresult, hagree⟩ := ih h (hv.parent hup)
          rcases hr : Files.makeDirectoriesFrom fuel fs up with ⟨r, grown⟩
          rcases hr' : Files.makeDirectoriesFrom fuel fs' up with ⟨r', grown'⟩
          rw [hr, hr'] at hresult hagree
          dsimp only at hresult hagree
          subst hresult
          cases r with
          | error e => exact ⟨rfl, hagree⟩
          | ok _ =>
            simp only
            have hlast := hagree.ensureDirectory hv
            generalize grown.ensureDirectory path = last at hlast
            generalize grown'.ensureDirectory path = last' at hlast
            cases hlast with
            | made hmade => exact ⟨rfl, hmade⟩
            | refused cause => exact ⟨rfl, hagree⟩
        · cases cause <;> first | exact absurd rfl hc | exact ⟨rfl, h⟩

theorem Agree.makeDirectories (h : fs.Agree seen fs') (hv : Visible seen path) :
    (fs.makeDirectories path).1 = (fs'.makeDirectories path).1 ∧
      (fs.makeDirectories path).2.Agree seen (fs'.makeDirectories path).2 :=
  h.makeDirectoriesFrom hv _

theorem Agree.removeFile (h : fs.Agree seen fs') (hv : Visible seen path) :
    Alike seen (fs.removeFile path) (fs'.removeFile path) := by
  rw [Files.removeFile, Files.removeFile, ← h.target hv]
  cases ht : fs.target path with
  | error e => exact .refused e
  | ok t =>
    cases t with
    | itself piece => exact .refused .isDirectory
    | entry directory name slash =>
      simp only [bind, Except.bind, ← h.get?_entry hv ht]
      rcases fs.get? (directory ++ [name]) with _ | _ | _
      · exact .refused .notFound
      · by_cases hs : slash = true
        · simp only [hs, if_true]
          exact .refused .notDirectory
        · simp only [hs]
          exact .made (h.drop _)
      · exact .refused .isDirectory

end NetTrial.Files
