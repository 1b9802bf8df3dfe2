import NetTrial.Proofs.Staging
import NetTrial.Proofs.WrittenFiles
/-!
# What a recorded entry gives

The questions that are put to an area read its manifest first and change nothing. A tensor is
loaded when the manifest has an entry for it, the file of the entry is there and the entry says
how to decode it. What was staged is decoded to the tensor it was.
-/

namespace NetTrial

open NetTrial.Path Text

namespace Area

variable {a : Area} {fs : Files} {m : Manifest} {case : String} {role : Role}

/-! ## Entries of a manifest -/

theorem isFor_iff {e : TensorEntry} :
    Manifest.isFor case role e = true ↔ e.case = case ∧ e.role = role := by
  simp [Manifest.isFor]

/-- What is listed beside a recorded entry is for another case or role and was listed before. -/
theorem mem_record {e old : TensorEntry} (h : old ∈ (m.record e).tensors) :
    (old ∈ m.tensors ∧ ¬ (old.case = e.case ∧ old.role = e.role)) ∨ old = e := by
  rw [Manifest.record, List.mem_append, List.mem_filter, List.mem_singleton] at h
  rcases h with ⟨hold, hne⟩ | h
  · refine Or.inl ⟨hold, ?_⟩
    rw [Bool.not_eq_true', ← Bool.not_eq_true, isFor_iff] at hne
    exact hne
  · exact Or.inr h

/-! ## Files of entries -/

theorem readExisting_run (path : String) (fs : Files) :
    (readExisting path).run fs = (match fs.read path with
      | .ok bytes => .ok bytes
      | .error .notFound => .error (.missing path .file)
      | .error cause => .error (.os path cause), fs) := by
  rw [readExisting, Action.run_get_bind]
  cases fs.read path with
  | ok bytes => rfl
  | error e => cases e <;> rfl

theorem readExisting_eq_ok {path : String} {bytes : Bytes} :
    (readExisting path).run fs = (.ok bytes, fs) ↔ fs.read path = .ok bytes := by
  rw [readExisting_run]
  cases fs.read path with
  | ok found =>
    constructor
    · intro h
      cases h
      rfl
    · intro h
      cases h
      rfl
  | error e =>
    constructor
    · intro h
      cases e <;> cases h
    · intro h
      cases h

theorem readExisting_ends (path : String) (fs : Files) :
    (readExisting path).Ends fs (fun _ fs' => fs' = fs) fun bytes fs' =>
      fs' = fs ∧ fs.read path = .ok bytes := by
  have hrun := readExisting_run path fs
  cases hr : fs.read path with
  | ok bytes =>
    rw [hr] at hrun
    exact Action.ends_ok hrun ⟨rfl, rfl⟩
  | error e =>
    rw [hr] at hrun
    cases e <;> exact Action.ends_error hrun rfl

/-- The entry of a case and role, or what is reported when there is none. -/
theorem tensorEntry_run (h : a.Lists fs m) (case : String) (role : Role) :
    (a.tensorEntry case role).run fs = (match m.tensor? case role with
      | some e => .ok e
      | none => .error (.missing (a.tensorPath case role) (.tensor case role)), fs) := by
  rw [tensorEntry, Action.run_bind_of_ok h]
  cases m.tensor? case role <;> rfl

/-! ## Loading -/

theorem loadTensor_of_entry (h : a.Lists fs m) {e : TensorEntry} (he : m.tensor? case role = some e)
    {bytes : Bytes} (hb : fs.read (join a.root e.file) = .ok bytes) :
    (a.loadTensor case role).run fs =
      ((decodeEntry e bytes).mapError (.decode (join a.root e.file)), fs) := by
  have hentry : (a.tensorEntry case role).run fs = (.ok e, fs) := by
    rw [tensorEntry_run h, he]
  rw [loadTensor, Action.run_bind_of_ok hentry,
    Action.run_bind_of_ok ((readExisting_eq_ok).mpr hb), Action.run_settle]

theorem loadTensor_of_none (h : a.Lists fs m) (he : m.tensor? case role = none) :
    (a.loadTensor case role).run fs =
      (.error (.missing (a.tensorPath case role) (.tensor case role)), fs) := by
  have hentry : (a.tensorEntry case role).run fs =
      (.error (.missing (a.tensorPath case role) (.tensor case role)), fs) := by
    rw [tensorEntry_run h, he]
  rw [loadTensor, Action.run_bind_of_error hentry]

/-- Loading a tensor changes nothing. -/
theorem loadTensor_files (a : Area) (case : String) (role : Role) (fs : Files) :
    ((a.loadTensor case role).run fs).2 = fs := by
  rcases a.lists_or_fails fs with ⟨m, hm⟩ | ⟨e, he⟩
  · cases hf : m.tensor? case role with
    | none => rw [loadTensor_of_none hm hf]
    | some e =>
      have hentry : (a.tensorEntry case role).run fs = (.ok e, fs) := by
        rw [tensorEntry_run hm, hf]
      rw [loadTensor, Action.run_bind_of_ok hentry, Action.run_bind, readExisting_run]
      cases fs.read (join a.root e.file) with
      | ok bytes => rfl
      | error cause => cases cause <;> rfl
  · rw [loadTensor, tensorEntry, Action.run_bind_of_error (Action.run_bind_of_error he _)]

/-- A tensor is loaded exactly when it is recorded, its file is there and can be decoded. -/
theorem loadTensor_eq_ok {t : Tensor} {fs' : Files} :
    (a.loadTensor case role).run fs = (.ok t, fs') ↔ fs' = fs ∧
      ∃ m e bytes, a.Lists fs m ∧ m.tensor? case role = some e ∧
        fs.read (join a.root e.file) = .ok bytes ∧ decodeEntry e bytes = .ok t := by
  constructor
  · intro h
    have hsame := a.loadTensor_files case role fs
    rw [h] at hsame
    refine ⟨hsame, ?_⟩
    obtain ⟨e, fs₁, hentry, h⟩ := Action.run_bind_eq_ok.mp h
    obtain ⟨m, fs₂, hlist, hfind⟩ := Action.run_bind_eq_ok.mp hentry
    have hfs : fs = fs₂ := by
      have := a.readManifest_files fs
      rw [hlist] at this
      exact this.symm
    subst hfs
    rw [tensorEntry_run hlist] at hentry
    cases hf : m.tensor? case role with
    | none =>
      rw [hf] at hentry
      cases hentry
    | some found =>
      rw [hf] at hentry
      cases hentry
      rw [Action.run_bind, readExisting_run] at h
      cases hb : fs.read (join a.root e.file) with
      | error cause =>
        rw [hb] at h
        cases cause <;> cases h
      | ok bytes =>
        rw [hb] at h
        refine ⟨m, e, bytes, hlist, hf, hb, ?_⟩
        cases hd : decodeEntry e bytes with
        | error cause =>
          simp only [Action.run_settle, hd] at h
          cases h
        | ok t' =>
          simp only [Action.run_settle, hd] at h
          cases h
          rfl
  · rintro ⟨rfl, m, e, bytes, hlist, hf, hb, hd⟩
    rw [loadTensor_of_entry hlist hf hb, hd]
    rfl

/-! ## Asking -/

theorem hasTensor_run (h : a.Lists fs m) (case : String) (role : Role) :
    (a.hasTensor case role).run fs = (.ok ((m.tensor? case role).any (a.holds fs)), fs) := by
  rw [hasTensor, Action.run_bind_of_ok h]
  rfl

theorem stagedInputs_run (h : a.Lists fs m) :
    a.stagedInputs.run fs =
      (.ok (m.tensors.filter fun e => e.role == .input && a.holds fs e), fs) := by
  rw [stagedInputs, Action.run_bind_of_ok h]
  rfl

theorem stagedCases_run (h : a.Lists fs m) :
    a.stagedCases.run fs =
      (.ok (dropRepeats ((m.tensors.map (·.case)).mergeSort Files.textLe)), fs) := by
  rw [stagedCases, Action.run_bind_of_ok h]
  rfl

theorem model_run (h : a.Lists fs m) :
    a.model.run fs = (match m.model with
      | none => .error (.missing (join a.root modelStem) .model)
      | some entry =>
        if fs.isFile (join a.root entry.file) then .ok (join a.root entry.file, entry.format)
        else .error (.missing (join a.root entry.file) .modelFile), fs) := by
  rw [model, Action.run_bind_of_ok h]
  cases m.model with
  | none => rfl
  | some entry =>
    simp only [Action.run_get_bind]
    by_cases hf : fs.isFile (join a.root entry.file) = true
    · rw [if_pos hf, if_pos hf]
      rfl
    · rw [if_neg hf, if_neg hf]
      rfl

/-- Cases are listed only if the manifest is. -/
theorem lists_of_stagedCases {cases : List String} {fs' : Files}
    (h : a.stagedCases.run fs = (.ok cases, fs')) :
    ∃ m, a.Lists fs m ∧ cases = dropRepeats ((m.tensors.map (·.case)).mergeSort Files.textLe) := by
  rcases a.lists_or_fails fs with ⟨m, hm⟩ | ⟨e, he⟩
  · rw [stagedCases_run hm] at h
    cases h
    exact ⟨m, hm, rfl⟩
  · rw [stagedCases, Action.run_bind_of_error he] at h
    cases h

/-! ## The list of cases -/

theorem mem_dropRepeats (s : String) (l : List String) : s ∈ dropRepeats l ↔ s ∈ l := by
  induction l using dropRepeats.induct with
  | case1 => rfl
  | case2 t => rfl
  | case3 rest t ih =>
    rw [dropRepeats, if_pos rfl, ih]
    simp
  | case4 t u rest hne ih =>
    rw [dropRepeats, if_neg hne, List.mem_cons, ih, List.mem_cons (a := s) (b := t)]

/-- What is in order and without equal neighbours is in strict order. -/
theorem dropRepeats_strict {l : List String} (h : l.Pairwise (· ≤ ·)) :
    (dropRepeats l).Pairwise (· < ·) := by
  induction l using dropRepeats.induct with
  | case1 => exact .nil
  | case2 t => exact List.pairwise_singleton _ t
  | case3 rest t ih =>
    rw [dropRepeats, if_pos rfl]
    exact ih (List.pairwise_cons.mp h).2
  | case4 t u rest hne ih =>
    obtain ⟨hfirst, hrest⟩ := List.pairwise_cons.mp h
    rw [dropRepeats, if_neg hne]
    refine List.pairwise_cons.mpr ⟨fun s hs => ?_, ih hrest⟩
    have htu : t < u := Std.lt_of_le_of_ne (hfirst u (by simp)) hne
    rw [mem_dropRepeats] at hs
    rcases List.mem_cons.mp hs with rfl | hs
    · exact htu
    · exact Std.lt_of_lt_of_le htu ((List.pairwise_cons.mp hrest).1 s hs)

theorem textLe_iff (s t : String) : Files.textLe s t = true ↔ s ≤ t := by
  rw [Files.textLe, Bool.not_eq_true', decide_eq_false_iff_not]
  exact String.not_lt

theorem sorted_cases (names : List String) : (names.mergeSort Files.textLe).Pairwise (· ≤ ·) := by
  refine (List.pairwise_mergeSort ?_ ?_ names).imp fun {s t} h => (textLe_iff s t).mp h
  · intro r s t hrs hst
    rw [textLe_iff] at hrs hst ⊢
    exact Std.le_trans hrs hst
  · intro s t
    rw [Bool.or_eq_true, textLe_iff, textLe_iff]
    exact Std.le_total

/-- The cases are listed in strict order, and are those of the entries. -/
theorem stagedCases_spec (h : a.Lists fs m) :
    ∃ cases, a.stagedCases.run fs = (.ok cases, fs) ∧ cases.Pairwise (· < ·) ∧
      ∀ case, case ∈ cases ↔ ∃ e ∈ m.tensors, e.case = case := by
  refine ⟨_, stagedCases_run h, dropRepeats_strict (sorted_cases _), fun case => ?_⟩
  rw [mem_dropRepeats, List.mem_mergeSort, List.mem_map]

/-! ## Staged files are decoded -/

theorem parse_name (format : DatasetFormat) : DatasetFormat.parse format.name = .ok format := by
  cases format <;> rfl

theorem parse?_name (kind : ElementType) : ElementType.parse? kind.name = some kind := by
  cases kind <;> rfl

theorem fileBytes_eq_ok {t : Tensor} {bytes : Bytes} :
    a.fileBytes case role t = .ok bytes ↔ t.toFile a.format = .ok bytes := by
  rw [fileBytes]
  cases t.toFile a.format with
  | error e => exact ⟨nofun, nofun⟩
  | ok found =>
    constructor <;> intro h
    all_goals
      cases h
      rfl

/-- The entry of a staged tensor decodes its file to the tensor. -/
theorem decodeEntry_entryOf {t : Tensor} {bytes : Bytes} (ht : t.Representable)
    (hb : a.fileBytes case role t = .ok bytes) :
    decodeEntry (a.entryOf case role t bytes) bytes = .ok t := by
  have hread := Tensor.ofFile_toFile ht ((fileBytes_eq_ok).mp hb)
  simp only [decodeEntry, entryOf, parse_name, parse?_name]
  change (Tensor.ofFile bytes a.format t.shape t.elementType).mapError DecodeFault.dataset = _
  rw [hread]
  rfl

theorem fits_entryOf {t : Tensor} (ht : t.shape.Fits) (bytes : Bytes) :
    (a.entryOf case role t bytes).Fits := by
  intro shape hs
  cases hs
  exact ht

end Area

end NetTrial
