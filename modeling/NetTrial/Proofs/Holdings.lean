import NetTrial.Graph.Document
import NetTrial.Proofs.Clearing
import NetTrial.Proofs.Entries
/-!
# A staging area as a map of tensors

What a caller may expect of an area is a map from cases and roles to tensors: clearing empties
it, staging a tensor puts it there, and nothing else changes it. The area keeps to the map
while its manifest lists one fitting entry for each tensor of the map, and every call keeps
that, whether it succeeds or is refused. The one exception is a clearing that succeeds without
having swept the root; it is the exact condition of the main result.
-/

namespace NetTrial

open NetTrial.Path Text

/-- The tensors that an area should hold, by case and role. -/
abbrev Holdings := String → Role → Option Tensor

namespace Holdings

/-- Nothing is held. -/
def none : Holdings := fun _ _ => Option.none

/-- A tensor is held in place of what was held for its case and role. -/
def put (held : Holdings) (case : String) (role : Role) (t : Tensor) : Holdings :=
  fun c r => if c = case ∧ r = role then some t else held c r

theorem put_same (held : Holdings) (case : String) (role : Role) (t : Tensor) :
    held.put case role t case role = some t := if_pos ⟨rfl, rfl⟩

theorem put_of_ne (held : Holdings) {case c : String} {role r : Role} (t : Tensor)
    (h : ¬ (c = case ∧ r = role)) : held.put case role t c r = held c r := if_neg h

end Holdings

namespace Area

variable {a : Area} {fs fs' : Files} {m : Manifest} {held : Holdings}

/-- The answers of an area are those of a map of tensors. -/
structure Faithful (a : Area) (fs : Files) (held : Holdings) : Prop where
  /-- A held tensor is loaded as it was staged; any other is reported missing. -/
  load : ∀ case role, (a.loadTensor case role).run fs = (match held case role with
    | some t => .ok t
    | none => .error (.missing (a.tensorPath case role) (.tensor case role)), fs)
  /-- The tensors that are there are those held. -/
  has : ∀ case role, (a.hasTensor case role).run fs = (.ok (held case role).isSome, fs)
  /-- The staged cases are listed once each and in order. -/
  cases : ∃ cases, a.stagedCases.run fs = (.ok cases, fs) ∧ cases.Pairwise (· < ·) ∧
    ∀ case, case ∈ cases ↔ ∃ role, (held case role).isSome
  /-- Each held input is listed once. -/
  inputs : ∃ entries, a.stagedInputs.run fs = (.ok entries, fs) ∧
    (∀ e ∈ entries, e.role = .input) ∧ (entries.map (·.case)).Nodup ∧
    ∀ case, case ∈ entries.map (·.case) ↔ (held case .input).isSome

/-! ## What the area keeps -/

/-- A tensor is kept: its entry is the one it was staged with, and its file is there. -/
structure Keeps (a : Area) (fs : Files) (t : Tensor) (e : TensorEntry) : Prop where
  /-- The tensor is one that a machine can hold. -/
  representable : t.Representable
  /-- The case makes a file name of its own. -/
  named : checkCase e.case = .ok ()
  /-- The file is the tensor's, and the entry tells what it is. -/
  stored : ∃ bytes, a.fileBytes e.case e.role t = .ok bytes ∧
    e = a.entryOf e.case e.role t bytes ∧ fs.read (join a.root e.file) = .ok bytes

/-- The area keeps the tensors of a map and lists each of them once. -/
structure Holds (a : Area) (fs : Files) (held : Holdings) (m : Manifest) : Prop where
  /-- The root is a directory. -/
  stands : fs.Stands a.root
  /-- The manifest is this one. -/
  listed : a.Lists fs m
  /-- Every entry is for a held tensor. -/
  kept : ∀ e ∈ m.tensors, ∃ t, held e.case e.role = some t ∧ a.Keeps fs t e
  /-- Every held tensor has an entry. -/
  complete : ∀ case role, (held case role).isSome →
    ∃ e ∈ m.tensors, e.case = case ∧ e.role = role
  /-- No two entries are for one case and role. -/
  once : m.tensors.Pairwise fun e e' => ¬ (e.case = e'.case ∧ e.role = e'.role)

theorem Keeps.load {t : Tensor} {e : TensorEntry} (h : a.Keeps fs t e) :
    ∃ bytes, fs.read (join a.root e.file) = .ok bytes ∧ decodeEntry e bytes = .ok t := by
  obtain ⟨bytes, hb, he, hread⟩ := h.stored
  refine ⟨bytes, hread, ?_⟩
  rw [he]
  exact decodeEntry_entryOf h.representable hb

theorem Keeps.holds {t : Tensor} {e : TensorEntry} (h : a.Keeps fs t e) :
    a.holds fs e = true := by
  obtain ⟨bytes, -, -, hread⟩ := h.stored
  exact Files.isFile_iff.mpr ⟨bytes, hread⟩

/-- A held tensor is the one its entry keeps. -/
theorem Holds.tensor?_some (h : a.Holds fs held m) {case : String} {role : Role} {t : Tensor}
    (ht : held case role = some t) : ∃ e, m.tensor? case role = some e ∧ a.Keeps fs t e := by
  obtain ⟨e, he, hcase, hrole⟩ := h.complete case role (by rw [ht]; rfl)
  cases hf : m.tensor? case role with
  | none =>
    have hnone := List.find?_eq_none.mp hf e he
    exact absurd (isFor_iff.mpr ⟨hcase, hrole⟩) hnone
  | some found =>
    obtain ⟨rfl, rfl⟩ := isFor_iff.mp (List.find?_some hf)
    obtain ⟨t', ht', hk⟩ := h.kept found (List.mem_of_find?_eq_some hf)
    rw [ht] at ht'
    cases ht'
    exact ⟨found, rfl, hk⟩

theorem Holds.tensor?_none (h : a.Holds fs held m) {case : String} {role : Role}
    (ht : held case role = none) : m.tensor? case role = none := by
  cases hf : m.tensor? case role with
  | none => rfl
  | some found =>
    obtain ⟨rfl, rfl⟩ := isFor_iff.mp (List.find?_some hf)
    obtain ⟨t, ht', -⟩ := h.kept found (List.mem_of_find?_eq_some hf)
    rw [ht] at ht'
    cases ht'

/-- What keeps the tensors of a map answers like the map. -/
theorem Holds.faithful (h : a.Holds fs held m) : a.Faithful fs held where
  load case role := by
    cases ht : held case role with
    | none => exact loadTensor_of_none h.listed (h.tensor?_none ht)
    | some t =>
      obtain ⟨e, he, hk⟩ := h.tensor?_some ht
      obtain ⟨bytes, hb, hd⟩ := hk.load
      rw [loadTensor_of_entry h.listed he hb, hd]
      rfl
  has case role := by
    rw [hasTensor_run h.listed]
    cases ht : held case role with
    | none =>
      rw [h.tensor?_none ht]
      rfl
    | some t =>
      obtain ⟨e, he, hk⟩ := h.tensor?_some ht
      rw [he, Option.any_some, hk.holds]
      rfl
  cases := by
    obtain ⟨cases, hrun, hstrict, hmem⟩ := stagedCases_spec h.listed
    refine ⟨cases, hrun, hstrict, fun case => ?_⟩
    rw [hmem]
    constructor
    · rintro ⟨e, he, rfl⟩
      obtain ⟨t, ht, -⟩ := h.kept e he
      exact ⟨e.role, by rw [ht]; rfl⟩
    · rintro ⟨role, hs⟩
      obtain ⟨e, he, hcase, -⟩ := h.complete case role hs
      exact ⟨e, he, hcase⟩
  inputs := by
    have hmem : ∀ e, e ∈ m.tensors.filter (fun e => e.role == .input && a.holds fs e) ↔
        e ∈ m.tensors ∧ e.role = .input := by
      intro e
      rw [List.mem_filter, Bool.and_eq_true, beq_iff_eq]
      constructor
      · rintro ⟨he, hr, -⟩
        exact ⟨he, hr⟩
      · rintro ⟨he, hr⟩
        obtain ⟨t, -, hk⟩ := h.kept e he
        exact ⟨he, hr, hk.holds⟩
    refine ⟨_, stagedInputs_run h.listed, fun e he => ((hmem e).mp he).2, ?_, fun case => ?_⟩
    · rw [List.Nodup, List.pairwise_map]
      have honce := h.once.filter fun e => e.role == .input && a.holds fs e
      refine honce.imp_of_mem fun {e e'} he he' hne hcase => ?_
      exact hne ⟨hcase, ((hmem e).mp he).2.trans ((hmem e').mp he').2.symm⟩
    · rw [List.mem_map]
      constructor
      · rintro ⟨e, he, rfl⟩
        obtain ⟨hin, hr⟩ := (hmem e).mp he
        obtain ⟨t, ht, -⟩ := h.kept e hin
        rw [← hr, ht]
        rfl
      · intro hs
        obtain ⟨e, he, hcase, hr⟩ := h.complete case .input hs
        exact ⟨e, (hmem e).mpr ⟨he, hr⟩, hcase⟩

/-! ## What each call does to it -/

/-- A file under another name leaves a kept tensor. -/
theorem Keeps.withEntry {t : Tensor} {e : TensorEntry} (h : a.Keeps fs t e) {name : String}
    {bytes : Bytes} (m' : Manifest) (hother : e.file ≠ name)
    (hs : (a.withEntry fs name bytes m').Stands a.root) :
    a.Keeps (a.withEntry fs name bytes m') t e := by
  refine ⟨h.representable, h.named, ?_⟩
  obtain ⟨own, hb, he, hread⟩ := h.stored
  have hfile : e.file = a.tensorFile e.case e.role := by rw [he]; rfl
  have hname : IsName e.file := by
    rw [hfile]
    exact a.isName_tensorFile (checkCase_ok h.named).1 e.role
  obtain ⟨-, ha, hg⟩ := (Files.read_join_eq_ok hname).mp hread
  refine ⟨own, hb, he, (Files.read_join_eq_ok hname).mpr ⟨hs, ha, ?_⟩⟩
  rw [withEntry_get?, if_neg, if_neg, hg]
  · exact entry_ne hother
  · rw [hfile]
    exact entry_ne (a.tensorFile_ne_fixed manifest_fixed e.case e.role)

/-- A staged model leaves the map; a refused one leaves the files. -/
theorem Holds.stageModel (h : a.Holds fs held m) (model : Graph.Model) :
    (∃ e, (a.stageModel model.source).run fs = (.error e, fs)) ∨
      ∃ path fs' m', (a.stageModel model.source).run fs = (.ok path, fs') ∧
        a.Holds fs' held m' := by
  have hbytes : model.source.serialized = .ok model.bytes := rfl
  have hne : graphName ≠ manifestName := by decide
  rw [stageModel_run hbytes]
  change (∃ e, ((a.enter (join a.root graphName) model.bytes _).run fs).map _ id = _) ∨
    ∃ path fs' m', ((a.enter (join a.root graphName) model.bytes _).run fs).map _ id = _ ∧ _
  rcases enter_listed h.stands h.listed isName_graph hne model.bytes
    fun m => { m with model := some (modelEntryOf model.source model.bytes) } with
    ⟨e, he⟩ | ⟨-, hd, hrun⟩
  · rw [he]
    exact Or.inl ⟨e, rfl⟩
  · right
    rw [hrun]
    refine ⟨_, _, { m with model := some (modelEntryOf model.source model.bytes) }, rfl, ?_⟩
    have hstands := withEntry_stands h.stands h.listed hne hd model.bytes
      { m with model := some (modelEntryOf model.source model.bytes) }
    refine ⟨hstands, ?_, fun e he => ?_, h.complete, h.once⟩
    · exact withEntry_lists h.stands h.listed hne hd model.bytes (h.listed.fits.withModel _)
    · obtain ⟨t, ht, hk⟩ := h.kept e he
      refine ⟨t, ht, hk.withEntry _ ?_ hstands⟩
      obtain ⟨bytes, -, hentry, -⟩ := hk.stored
      rw [hentry]
      exact a.tensorFile_ne_fixed graph_fixed e.case e.role

/-- The entry and the file of a tensor that was just staged. -/
theorem keeps_entryOf {case : String} {role : Role} {t : Tensor} {bytes : Bytes}
    (ht : t.Representable) (hc : checkCase case = .ok ())
    (hb : a.fileBytes case role t = .ok bytes)
    (ha : Files.admits a.root (a.tensorFile case role) = .ok ()) (m' : Manifest)
    (hs : (a.withEntry fs (a.tensorFile case role) bytes m').Stands a.root) :
    a.Keeps (a.withEntry fs (a.tensorFile case role) bytes m') t
      (a.entryOf case role t bytes) := by
  refine ⟨ht, hc, bytes, hb, rfl, ?_⟩
  refine (Files.read_join_eq_ok (a.isName_tensorFile (checkCase_ok hc).1 role)).mpr ⟨hs, ha, ?_⟩
  rw [withEntry_get?, if_neg, if_pos rfl]
  exact entry_ne (a.tensorFile_ne_fixed manifest_fixed case role)

/-- Recording a tensor whose file is written puts it in the map. -/
theorem Holds.record (h : a.Holds fs held m) {case : String} {role : Role} {t : Tensor}
    {bytes : Bytes} (ht : t.Representable) (hc : checkCase case = .ok ())
    (hb : a.fileBytes case role t = .ok bytes)
    (ha : Files.admits a.root (a.tensorFile case role) = .ok ())
    (hd : fs.get? (location a.root ++ [a.tensorFile case role]) ≠ some .directory) :
    a.Holds (a.withEntry fs (a.tensorFile case role) bytes (m.record (a.entryOf case role t bytes)))
      (held.put case role t) (m.record (a.entryOf case role t bytes)) := by
  have hne : a.tensorFile case role ≠ manifestName :=
    a.tensorFile_ne_fixed manifest_fixed case role
  have hstands := withEntry_stands h.stands h.listed hne hd bytes
    (m.record (a.entryOf case role t bytes))
  -- an older entry that stays is for another case or role
  have holder : ∀ e : TensorEntry, (!Manifest.isFor case role e) = true →
      ¬ (e.case = case ∧ e.role = role) := by
    intro e hold hsame
    rw [Bool.not_eq_true', ← Bool.not_eq_true] at hold
    exact hold (isFor_iff.mpr hsame)
  refine ⟨hstands, ?_, fun e he => ?_, fun c r hcr => ?_, ?_⟩
  · exact withEntry_lists h.stands h.listed hne hd bytes
      (h.listed.fits.record (fits_entryOf ht.dims bytes))
  · rw [Manifest.record, List.mem_append, List.mem_filter, List.mem_singleton] at he
    rcases he with ⟨he, hold⟩ | rfl
    · have hother := holder e hold
      obtain ⟨t', ht', hk⟩ := h.kept e he
      refine ⟨t', ?_, hk.withEntry _ ?_ hstands⟩
      · rw [Holdings.put_of_ne held t hother, ht']
      · obtain ⟨own, -, hentry, -⟩ := hk.stored
        intro hfile
        rw [hentry] at hfile
        obtain ⟨hsc, hsr, -⟩ := tensorFile_inj hfile
        exact hother ⟨hsc, hsr⟩
    · exact ⟨t, held.put_same case role t, keeps_entryOf ht hc hb ha _ hstands⟩
  · by_cases hnew : c = case ∧ r = role
    · obtain ⟨rfl, rfl⟩ := hnew
      exact ⟨_, List.mem_append_right _ (List.mem_singleton_self _), rfl, rfl⟩
    · rw [Holdings.put_of_ne held t hnew] at hcr
      obtain ⟨e, he, hcase, hrole⟩ := h.complete c r hcr
      refine ⟨e, List.mem_append_left _ (List.mem_filter.mpr ⟨he, ?_⟩), hcase, hrole⟩
      rw [Bool.not_eq_true', ← Bool.not_eq_true, isFor_iff]
      rintro ⟨hsc, hsr⟩
      exact hnew ⟨hcase.symm.trans hsc, hrole.symm.trans hsr⟩
  · refine List.pairwise_append.mpr ⟨h.once.filter _, List.pairwise_singleton _ _, ?_⟩
    intro e he e' he'
    rw [List.mem_singleton.mp he']
    exact holder e (List.mem_filter.mp he).2

/-- A staged tensor is put in the map; a refused one leaves the files. -/
theorem Holds.stageTensor (h : a.Holds fs held m) (case : String) (role : Role) {t : Tensor}
    (ht : t.Representable) :
    (∃ e, (a.stageTensor case role t).run fs = (.error e, fs)) ∨
      ∃ path fs' m', (a.stageTensor case role t).run fs = (.ok path, fs') ∧
        a.Holds fs' (held.put case role t) m' := by
  rcases stageTensor_listed h.stands h.listed case role t with
    hrefused | ⟨bytes, hc, hb, ha, hd, hrun⟩
  · exact Or.inl hrefused
  · exact Or.inr ⟨_, _, _, hrun, h.record ht hc hb ha hd⟩

/-- An area that lists no tensors keeps the empty map. -/
theorem holds_none (hs : fs.Stands a.root) (hl : a.Lists fs m) (ht : m.tensors = []) :
    a.Holds fs .none m := by
  refine ⟨hs, hl, ?_, ?_, ?_⟩
  · rw [ht]
    intro e he
    cases he
  · intro case role h
    cases h
  · rw [ht]
    exact .nil

/-- An area that keeps a map is swept by the next clearing, if its root is a path that does not
pass where the manifest belongs. -/
theorem Holds.sweeps (h : a.Holds fs held m) (hroot : a.root ≠ "")
    (hapart : ¬ OnPath a.root a.manifestSpot) : a.Sweeps fs := by
  have hspoken := h.listed.admits h.stands
  have hc := (checkPath_of_admits isName_manifest hspoken).resolve_right hroot
  exact ⟨hspoken, Or.inl (leads_of_stands h.stands hc), hapart⟩

/-- After a clearing that succeeded the area answers like the empty map exactly when the
clearing swept. -/
theorem faithful_none_iff (h : a.reset.run fs = (.ok (), fs')) :
    a.Faithful fs' .none ↔ a.Sweeps fs := by
  rw [← reset_lists_iff h]
  constructor
  · intro hf
    obtain ⟨cases, hrun, -, hmem⟩ := hf.cases
    obtain ⟨m, hl, rfl⟩ := lists_of_stagedCases hrun
    refine ⟨m, hl, List.eq_nil_iff_forall_not_mem.mpr fun e he => ?_⟩
    have hlisted := (hmem e.case).mp (by
      rw [mem_dropRepeats, List.mem_mergeSort]
      exact List.mem_map_of_mem he)
    obtain ⟨role, hs⟩ := hlisted
    cases hs
  · rintro ⟨m, hl, ht⟩
    exact (holds_none (reset_ok h).1 hl ht).faithful

end Area

/-! ## Runs -/

/-- A call that stages something or takes everything away. -/
inductive StagingCall where
  /-- Clears the area. -/
  | clear
  /-- Stages a graph model. -/
  | saveModel (model : Graph.Model)
  /-- Stages a tensor for a case and role. -/
  | saveTensor (case : String) (role : Role) (t : Tensor)

namespace StagingCall

variable {a : Area} {j : Journal}

/-- Makes a call. -/
def perform (a : Area) (j : Journal) : StagingCall → Action Files Unit
  | .clear => a.clear j
  | .saveModel model => do
    let _ ← a.saveModel j model.source
  | .saveTensor case role t => do
    let _ ← a.saveTensor j case role t

/-- What may be expected of the area after a call that ended in a given way. Nothing may
before the first clearing that succeeded, nor after one that failed. -/
def expected : StagingCall → Except Failure Unit → Option Holdings → Option Holdings
  | .clear, .ok _, _ => some .none
  | .clear, .error _, _ => none
  | .saveTensor case role t, .ok _, held => held.map (·.put case role t)
  | _, _, held => held

/-- Staging brings no expectation about. -/
theorem expected_none {call : StagingCall} (hc : call ≠ .clear) (ended : Except Failure Unit) :
    call.expected ended none = none := by
  cases call with
  | clear => exact absurd rfl hc
  | _ => cases ended <;> rfl

/-- What is expected is given up by a clearing that fails, and by nothing else. -/
theorem expected_isSome {call : StagingCall} {ended : Except Failure Unit}
    (hc : call = .clear → ended = .ok ()) (held : Holdings) :
    (call.expected ended (some held)).isSome = true := by
  cases call with
  | clear =>
    rw [hc rfl]
    rfl
  | _ => cases ended <;> rfl

/-- The tensors of a call are such that a machine can hold. -/
def Representable : StagingCall → Prop
  | .saveTensor _ _ t => t.Representable
  | _ => True

/-- The files, and what may be expected of them, after a call. -/
def step (a : Area) (j : Journal) (s : Files × Option Holdings) (call : StagingCall) :
    Files × Option Holdings :=
  (((call.perform a j).run s.1).2, call.expected ((call.perform a j).run s.1).1 s.2)

/-- The files, and what may be expected of them, after a run of calls. -/
def after (a : Area) (j : Journal) (fs : Files) (calls : List StagingCall) :
    Files × Option Holdings :=
  calls.foldl (step a j) (fs, none)

/-- The area keeps what may be expected of it. -/
def Kept (a : Area) (s : Files × Option Holdings) : Prop :=
  ∀ held, s.2 = some held → ∃ m, a.Holds s.1 held m

/-- Every call keeps what may be expected, but for a clearing that does not sweep. -/
theorem step_kept (hj : j.path = none) {s : Files × Option Holdings} (h : Kept a s)
    {call : StagingCall} (hr : call.Representable)
    (hsweep : call = .clear → ((a.clear j).run s.1).1 = .ok () → a.Sweeps s.1) :
    Kept a (step a j s call) := by
  intro held hheld
  cases call with
  | clear =>
    have hrun := (a.clear_closes j s.1).silent hj
    simp only [step, perform] at hheld ⊢
    rw [hrun] at hheld hsweep ⊢
    rcases hr : a.reset.run s.1 with ⟨e | _, fs'⟩
    · rw [hr] at hheld
      cases hheld
    · rw [hr] at hheld hsweep
      cases hheld
      obtain ⟨m, hl, ht⟩ := (Area.reset_lists_iff hr).mpr (hsweep rfl rfl)
      exact ⟨m, Area.holds_none (Area.reset_ok hr).1 hl ht⟩
  | saveModel model =>
    have hrun := (a.saveModel_closes j model.source s.1).silent hj
    simp only [step, perform, Action.run_bind] at hheld ⊢
    rw [hrun] at hheld ⊢
    cases hs : s.2 with
    | none =>
      rw [hs, expected_none (by simp)] at hheld
      cases hheld
    | some old =>
      have hold : held = old := by
        rw [hs] at hheld
        exact (Option.some.inj hheld).symm
      subst hold
      obtain ⟨m, hm⟩ := h held hs
      rcases hm.stageModel model with ⟨e, he⟩ | ⟨path, fs', m', hok, hm'⟩
      · rw [he]
        exact ⟨m, hm⟩
      · rw [hok]
        exact ⟨m', hm'⟩
  | saveTensor case role t =>
    have hrun := (a.saveTensor_closes j case role t s.1).silent hj
    simp only [step, perform, Action.run_bind] at hheld ⊢
    rw [hrun] at hheld ⊢
    cases hs : s.2 with
    | none =>
      rw [hs, expected_none (by simp)] at hheld
      cases hheld
    | some old =>
      obtain ⟨m, hm⟩ := h old hs
      rw [hs] at hheld
      rcases hm.stageTensor case role hr with ⟨e, he⟩ | ⟨path, fs', m', hok, hm'⟩
      · rw [he] at hheld ⊢
        cases hheld
        exact ⟨m, hm⟩
      · rw [hok] at hheld ⊢
        cases hheld
        exact ⟨m', hm'⟩

/-- A run whose clearings sweep keeps what may be expected. -/
theorem foldl_kept (hj : j.path = none) (calls : List StagingCall)
    (hr : ∀ call ∈ calls, call.Representable) {s : Files × Option Holdings} (h : Kept a s)
    (hsweep : ∀ before, before ++ [.clear] <+: calls →
      ((a.clear j).run (before.foldl (step a j) s).1).1 = .ok () →
        a.Sweeps (before.foldl (step a j) s).1) :
    Kept a (calls.foldl (step a j) s) := by
  induction calls generalizing s with
  | nil => exact h
  | cons call calls ih =>
    have hfirst : Kept a (step a j s call) := by
      refine step_kept hj h (hr call (by simp)) fun hc => ?_
      exact hsweep [] (by simp [hc])
    refine ih (fun c hc => hr c (by simp [hc])) hfirst fun before hb => ?_
    exact hsweep (call :: before) (by simpa using hb)

/-- All along a run of calls the area answers like the map of the tensors that were staged
since the last clearing, exactly when every clearing of the run that succeeds sweeps. -/
theorem faithful_iff_sweeps (a : Area) {j : Journal} (hj : j.path = none) (fs : Files)
    {calls : List StagingCall} (hr : ∀ call ∈ calls, call.Representable) :
    (∀ before held, before <+: calls → (after a j fs before).2 = some held →
      a.Faithful (after a j fs before).1 held) ↔
    ∀ before, before ++ [.clear] <+: calls →
      ((a.clear j).run (after a j fs before).1).1 = .ok () → a.Sweeps (after a j fs before).1 := by
  constructor
  · intro hfaithful before hb hok
    have hrun := (a.clear_closes j (after a j fs before).1).silent hj
    have hstep : after a j fs (before ++ [.clear]) = step a j (after a j fs before) .clear := by
      rw [after, List.foldl_append]
      rfl
    have hf := hfaithful (before ++ [.clear]) .none hb
    rw [hstep] at hf
    simp only [step, perform, hok, expected] at hf
    rw [hrun] at hok hf
    rcases hreset : a.reset.run (after a j fs before).1 with ⟨e | _, fs'⟩
    · rw [hreset] at hok
      cases hok
    · rw [hreset] at hf
      exact (Area.faithful_none_iff hreset).mp (hf trivial)
  · intro hsweep before held hb hheld
    have hkept : Kept a (after a j fs before) := by
      refine foldl_kept hj before (fun call hc => hr call (hb.subset hc)) ?_ fun earlier he => ?_
      · intro held h
        cases h
      · exact hsweep earlier (he.trans hb)
    obtain ⟨m, hm⟩ := hkept held hheld
    exact hm.faithful

/-- While clearing succeeds, an area with a root path that is not empty and does not move up
goes on keeping what may be expected. -/
theorem foldl_expected (hj : j.path = none) (hroot : a.root ≠ "") (hup : ".." ∉ pieces a.root)
    {calls : List StagingCall} (hr : ∀ call ∈ calls, call.Representable)
    {s : Files × Option Holdings} (h : Kept a s) (hs : s.2.isSome = true)
    (hok : ∀ before, before ++ [.clear] <+: calls →
      ((a.clear j).run (before.foldl (step a j) s).1).1 = .ok ()) :
    ∃ held m, (calls.foldl (step a j) s).2 = some held ∧
      a.Holds (calls.foldl (step a j) s).1 held m := by
  induction calls generalizing s with
  | nil =>
    obtain ⟨held, hheld⟩ := Option.isSome_iff_exists.mp hs
    obtain ⟨m, hm⟩ := h held hheld
    exact ⟨held, m, hheld, hm⟩
  | cons call calls ih =>
    obtain ⟨held, hheld⟩ := Option.isSome_iff_exists.mp hs
    obtain ⟨m, hm⟩ := h held hheld
    have hnow : call = .clear → ((call.perform a j).run s.1).1 = .ok () := by
      rintro rfl
      exact hok [] (by simp)
    have hsome : (step a j s call).2.isSome = true := by
      rw [step, hheld]
      exact expected_isSome hnow held
    have hnext : Kept a (step a j s call) :=
      step_kept hj h (hr call (by simp)) fun _ _ =>
        hm.sweeps hroot (Area.not_onPath_manifestSpot hup)
    exact ih (fun c hc => hr c (by simp [hc])) hnext hsome fun before hb =>
      hok (call :: before) (by simpa using hb)

/-- After a first clearing that sweeps, an area with a root path that is not empty and does not
move up answers like the map of the staged tensors for as long as clearing succeeds. -/
theorem faithful_of_swept {a : Area} (hj : j.path = none) (hroot : a.root ≠ "")
    (hup : ".." ∉ pieces a.root) {fs : Files} (hfirst : a.Sweeps fs) {calls : List StagingCall}
    (hr : ∀ call ∈ calls, call.Representable)
    (hok : ∀ before, before ++ [.clear] <+: .clear :: calls →
      ((a.clear j).run (after a j fs before).1).1 = .ok ()) :
    ∃ held, (after a j fs (.clear :: calls)).2 = some held ∧
      a.Faithful (after a j fs (.clear :: calls)).1 held := by
  have hstart : Kept a (fs, none) := by
    intro held h
    cases h
  have hcleared : Kept a (step a j (fs, none) .clear) :=
    step_kept hj hstart trivial fun _ _ => hfirst
  have hsome : (step a j (fs, none) .clear).2.isSome = true := by
    have hrun := hok [] (by simp)
    simp only [after, List.foldl_nil] at hrun
    simp only [step, perform, hrun, expected]
    rfl
  obtain ⟨held, m, hheld, hm⟩ := foldl_expected hj hroot hup hr hcleared hsome fun before hb =>
    hok (.clear :: before) (by simpa using hb)
  exact ⟨held, hheld, hm.faithful⟩

/-- The area that small runs are made in. -/
def plainArea : Area := ⟨"w", .raw⟩

/-- The area whose root is the empty path. -/
def rootlessArea : Area := ⟨"", .raw⟩

/-- A tensor of two bytes. -/
def pair : Tensor := ⟨[2], .u8 [1, 2]⟩

theorem representable_pair : pair.Representable := ⟨rfl, by decide, by decide⟩

set_option maxRecDepth 10000 in
/-- In a fresh area a staged input is answered for after the clearing. -/
theorem fresh_area_faithful : ∃ held,
    (after plainArea {} .empty [.clear, .saveTensor "first" .input pair]).2 = some held ∧
      plainArea.Faithful
        (after plainArea {} .empty [.clear, .saveTensor "first" .input pair]).1 held := by
  have hsome : (after plainArea {} .empty
      [.clear, .saveTensor "first" .input pair]).2.isSome = true := by decide +kernel
  obtain ⟨held, hheld⟩ := Option.isSome_iff_exists.mp hsome
  refine ⟨held, hheld, ?_⟩
  refine (faithful_iff_sweeps plainArea rfl .empty ?_).mpr ?_ _ held List.prefix_rfl hheld
  · intro call hc
    rcases List.mem_cons.mp hc with rfl | hc
    · trivial
    · rw [List.mem_singleton.mp hc]
      exact representable_pair
  · intro before hb _
    have hnil : before = [] := by
      rcases before with _ | ⟨first, _ | ⟨second, rest⟩⟩
      · rfl
      · simp at hb
      · have := hb.length_le
        simp at this
    subst hnil
    refine ⟨rfl, Or.inr (Or.inl rfl), fun hp => ?_⟩
    have hpre := onPath_isInitial (by decide) hp
    exact absurd hpre.length_le (by decide)

/-- Clearing an area whose root is the empty path succeeds and takes nothing away. -/
theorem after_clear_rootless {a : Area} (ha : a.root = "") (hj : j.path = none) (fs : Files)
    (calls : List StagingCall) :
    after a j fs (calls ++ [.clear]) = ((after a j fs calls).1, some .none) := by
  have hstep : after a j fs (calls ++ [.clear]) = step a j (after a j fs calls) .clear := by
    rw [after, List.foldl_append]
    rfl
  rw [hstep, step, perform, (a.clear_closes j _).silent hj, Area.reset_rootless ha]
  rfl

set_option maxRecDepth 10000 in
/-- An input staged under the empty path outlives a clearing that succeeded. -/
theorem rootless_area_not_faithful :
    (after rootlessArea {} .empty
      [.clear, .saveTensor "first" .input pair, .clear]).2 = some .none ∧
    ¬ rootlessArea.Faithful (after rootlessArea {} .empty
      [.clear, .saveTensor "first" .input pair, .clear]).1 .none := by
  have hclear := after_clear_rootless (a := rootlessArea) (j := {}) rfl rfl .empty
    [.clear, .saveTensor "first" .input pair]
  refine ⟨congrArg Prod.snd hclear, fun hf => ?_⟩
  have hthere : ((rootlessArea.hasTensor "first" .input).run (after rootlessArea {} .empty
      [.clear, .saveTensor "first" .input pair, .clear]).1).1.toOption = some true := by
    decide +kernel
  rw [hf.has] at hthere
  cases hthere

end StagingCall

end NetTrial
