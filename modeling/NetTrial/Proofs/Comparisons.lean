import NetTrial.Trial.Comparison
import NetTrial.Proofs.Entries
/-!
# What a comparison reads

A comparison loads what is expected of a case and its candidate, and changes nothing. The
candidate is read through its recorded entry; one that was recorded without a shape is taken
under the expected shape.
-/

namespace NetTrial

open NetTrial.Path Text NetTrial.Action

namespace Area

variable {a : Area} {fs fs' : Files} {case : String}

/-- The candidate that a recorded file makes: what it holds, under the expected shape when the
entry tells none. -/
def Adopts (case : String) (expected : Tensor) (e : TensorEntry) (found candidate : Tensor) :
    Prop :=
  match e.shape with
  | some _ => candidate = found
  | none => adoptShape case expected found = .ok candidate

/-- The staged pair of a case, with the entry and the bytes that the candidate comes from. -/
structure Pairs (a : Area) (fs : Files) (case : String) (e : TensorEntry) (bytes : Bytes)
    (pair : StagedPair) : Prop where
  /-- What is expected is staged. -/
  expected : (a.loadTensor case .expected).run fs = (.ok pair.expected, fs)
  /-- The candidate is recorded. -/
  entry : ∃ m, a.Lists fs m ∧ m.tensor? case .candidate = some e
  /-- Its file is there. -/
  file : fs.read (join a.root e.file) = .ok bytes
  /-- The file is decoded as the entry tells. -/
  decoded : ∃ found, decodeEntry e bytes = .ok found ∧
    Adopts case pair.expected e found pair.candidate
  /-- The digest is the recorded one. -/
  digest : pair.digest = e.sha256

/-- A tensor is loaded or not, and nothing is changed. -/
theorem loadTensor_ends (a : Area) (case : String) (role : Role) (fs : Files) :
    (a.loadTensor case role).Ends fs (fun _ fs' => fs' = fs) fun t fs' => fs' = fs ∧
      ∃ m e bytes, a.Lists fs m ∧ m.tensor? case role = some e ∧
        fs.read (join a.root e.file) = .ok bytes ∧ decodeEntry e bytes = .ok t := by
  refine ⟨fun hr => ?_, fun hr => loadTensor_eq_ok.mp hr⟩
  have hfiles := a.loadTensor_files case role fs
  rw [hr] at hfiles
  exact hfiles

theorem tensorEntry_ends (a : Area) (case : String) (role : Role) (fs : Files) :
    (a.tensorEntry case role).Ends fs (fun _ fs' => fs' = fs) fun e fs' => fs' = fs ∧
      ∃ m, a.Lists fs m ∧ m.tensor? case role = some e := by
  rcases a.lists_or_fails fs with ⟨m, hl⟩ | ⟨e, he⟩
  · have hrun := tensorEntry_run hl case role
    cases hf : m.tensor? case role with
    | none =>
      rw [hf] at hrun
      exact ends_error hrun rfl
    | some e =>
      rw [hf] at hrun
      exact ends_ok hrun ⟨rfl, m, hl, hf⟩
  · exact ends_error (run_bind_of_error he _) rfl

theorem loadPair_ends (a : Area) (case : String) (fs : Files) :
    (a.loadPair case).Ends fs (fun _ fs' => fs' = fs) fun pair fs' => fs' = fs ∧
      ∃ e bytes, a.Pairs fs case e bytes pair := by
  rw [loadPair]
  refine .bind ⟨fun hr => (a.loadTensor_ends case .expected fs).of_error hr,
    fun {expected fs₁} hexp => ?_⟩
  obtain ⟨rfl, -⟩ := (a.loadTensor_ends case .expected fs).of_ok hexp
  refine .bind ((a.tensorEntry_ends case .candidate _).mono (fun _ _ h => h) ?_)
  rintro e fs₂ ⟨rfl, m, hm, he⟩
  refine .bind ((a.loadTensor_ends case .candidate _).mono (fun _ _ h => h) ?_)
  rintro found fs₃ ⟨rfl, m', e', bytes, hm', he', hb, hd⟩
  obtain rfl := hm.unique hm'
  rw [he] at he'
  cases he'
  cases hs : e.shape with
  | some shape =>
    refine ends_pure ⟨rfl, e, bytes, hexp, ⟨m, hm, he⟩, hb, ⟨found, hd, ?_⟩, rfl⟩
    simp only [Adopts, hs]
  | none =>
    refine .bind (ends_settle (fun _ _ => rfl) fun candidate hc => ?_)
    refine ends_pure ⟨rfl, e, bytes, hexp, ⟨m, hm, he⟩, hb, ⟨found, hd, ?_⟩, rfl⟩
    simp only [Adopts, hs]
    exact hc

/-- What is recorded and can be decoded is loaded as a pair. -/
theorem Pairs.load {e : TensorEntry} {bytes : Bytes} {pair : StagedPair}
    (h : a.Pairs fs case e bytes pair) : (a.loadPair case).run fs = (.ok pair, fs) := by
  obtain ⟨m, hm, he⟩ := h.entry
  obtain ⟨found, hd, hadopt⟩ := h.decoded
  have hentry : (a.tensorEntry case .candidate).run fs = (.ok e, fs) := by
    rw [tensorEntry_run hm, he]
  have hcandidate : (a.loadTensor case .candidate).run fs = (.ok found, fs) :=
    loadTensor_eq_ok.mpr ⟨rfl, m, e, bytes, hm, he, h.file, hd⟩
  rw [loadPair, run_bind_of_ok h.expected, run_bind_of_ok hentry, run_bind_of_ok hcandidate]
  have hdigest := h.digest
  rw [Adopts] at hadopt
  cases hs : e.shape with
  | some shape =>
    simp only [hs] at hadopt
    simp only [run_pure, ← hdigest, ← hadopt]
  | none =>
    simp only [hs] at hadopt
    simp only [run_settle_bind, hadopt, run_pure, ← hdigest]

/-- Comparing the staged pair of a case without a line in the journal. -/
def compareStaged (a : Area) (case : String) (tolerance : Double) :
    Action Files Comparison := do
  let pair ← a.loadPair case
  Action.settle (compareTensors case pair.expected pair.candidate tolerance)

theorem closeTo_closes (a : Area) (j : Journal) (case : String) (tolerance : Double)
    (fs : Files) :
    j.Closes "compare" ((a.compareStaged case tolerance).run fs)
      ((a.closeTo j case tolerance).run fs) := by
  refine j.logged_run case "compare" ?_ fs
  refine .bind (.act _) fun pair => .note_bind _ ?_
  refine .of_bind_pure ?_
  exact .bind (.act _) fun comparison => .note_bind _ (.pure _)

theorem closeTo_silent {j : Journal} (hj : j.path = none) (case : String) (tolerance : Double) :
    a.closeTo j case tolerance = a.compareStaged case tolerance :=
  ext_run fun fs => (a.closeTo_closes j case tolerance fs).silent hj

/-- The comparison of a case and the entry and bytes that its candidate comes from. -/
def Compares (a : Area) (fs : Files) (case : String) (tolerance : Double)
    (e : TensorEntry) (bytes : Bytes) (comparison : Comparison) : Prop :=
  ∃ pair, a.Pairs fs case e bytes pair ∧
    compareTensors case pair.expected pair.candidate tolerance = .ok comparison

theorem compareStaged_files (a : Area) (case : String) (tolerance : Double) (fs : Files) :
    ((a.compareStaged case tolerance).run fs).2 = fs := by
  rw [compareStaged, run_bind]
  rcases hrun : (a.loadPair case).run fs with ⟨e | pair, fs'⟩
  · exact (a.loadPair_ends case fs).of_error hrun
  · exact ((a.loadPair_ends case fs).of_ok hrun).1

/-- A case is compared exactly when there is a pair that is close enough. -/
theorem compareStaged_eq_ok {tolerance : Double} {comparison : Comparison} :
    (a.compareStaged case tolerance).run fs = (.ok comparison, fs') ↔
      fs' = fs ∧ ∃ e bytes, a.Compares fs case tolerance e bytes comparison := by
  constructor
  · intro h
    have hends : (a.compareStaged case tolerance).Ends fs (fun _ _ => True)
        fun comparison fs' => fs' = fs ∧ ∃ e bytes,
          a.Compares fs case tolerance e bytes comparison := by
      rw [compareStaged]
      refine .bind ((a.loadPair_ends case fs).mono (fun _ _ _ => trivial) ?_)
      rintro pair fs₁ ⟨rfl, e, bytes, hpair⟩
      exact ends_settle (fun _ _ => trivial) fun c hc => ⟨rfl, e, bytes, pair, hpair, hc⟩
    exact hends.of_ok h
  · rintro ⟨rfl, e, bytes, pair, hpair, hc⟩
    rw [compareStaged, run_bind_of_ok hpair.load]
    simp only [hc, run_settle]

end Area

/-! ## Elements -/

/-- A tolerance that can be compared with: a number that is not below zero. -/
def Double.IsTolerance (x : Double) : Prop := x.isFinite = true ∧ x.isBelowZero = false

/-- Two tensors of one shape of which no element is off by more than a tolerance. -/
structure Double.Near (tolerance : Double) (expected candidate : Tensor) : Prop where
  /-- The shapes are the same. -/
  shape : expected.shape = candidate.shape
  /-- No error is too large. -/
  errors : ∀ error ∈ elementErrors expected.toDoubles candidate.toDoubles,
    exceeds tolerance error = false

variable {case : String} {expected candidate : Tensor} {tolerance : Double}

/-- Under a tolerance two tensors of one shape are found near, or it is said which element is
off. -/
theorem compareTensors_of_shape (case : String) (ht : tolerance.IsTolerance)
    (hs : expected.shape = candidate.shape) :
    (tolerance.Near expected candidate ∧
        ∃ comparison, compareTensors case expected candidate tolerance = .ok comparison) ∨
      (¬ tolerance.Near expected candidate ∧
        ∃ violation, compareTensors case expected candidate tolerance =
          .error (.tolerance violation)) := by
  have htolerance : ¬ (!tolerance.isFinite || tolerance.isBelowZero) = true := by
    simp [ht.1, ht.2]
  rw [compareTensors, if_neg htolerance, if_neg (not_not_intro hs)]
  cases hfind : (elementErrors expected.toDoubles candidate.toDoubles).findIdx?
    (exceeds tolerance) with
  | none =>
    exact Or.inl ⟨⟨hs, List.findIdx?_eq_none_iff.mp hfind⟩, _, by simp only [hfind]; rfl⟩
  | some flat =>
    refine Or.inr ⟨fun hnear => ?_, _, by simp only [hfind]; rfl⟩
    rw [List.findIdx?_eq_none_iff.mpr hnear.errors] at hfind
    cases hfind

/-- Two tensors are compared exactly when the tolerance is one and they are near under it. -/
theorem compareTensors_ok_iff : (∃ comparison,
    compareTensors case expected candidate tolerance = .ok comparison) ↔
      tolerance.IsTolerance ∧ tolerance.Near expected candidate := by
  by_cases ht : tolerance.IsTolerance
  · by_cases hs : expected.shape = candidate.shape
    · rcases compareTensors_of_shape case ht hs with ⟨hnear, hok⟩ | ⟨hfar, v, he⟩
      · exact ⟨fun _ => ⟨ht, hnear⟩, fun _ => hok⟩
      · refine ⟨fun ⟨_, hok⟩ => ?_, fun h => absurd h.2 hfar⟩
        rw [he] at hok
        cases hok
    · refine ⟨fun ⟨_, hok⟩ => ?_, fun h => absurd h.2.shape hs⟩
      rw [compareTensors] at hok
      split at hok
      · cases hok
      · cases hok
  · refine ⟨fun ⟨_, hok⟩ => ?_, fun h => absurd h.1 ht⟩
    have hbad : (!tolerance.isFinite || tolerance.isBelowZero) = true := by
      rw [Double.IsTolerance] at ht
      cases hf : tolerance.isFinite <;> cases hb : tolerance.isBelowZero <;> simp_all
    rw [compareTensors, if_pos hbad] at hok
    cases hok

theorem Double.isTolerance_zero : Double.zero.IsTolerance := ⟨by decide, by decide⟩

theorem Double.magnitude_abs (x : Double) : x.abs.magnitude = x.magnitude := by
  have hlt : x.magnitude < 0x8000000000000000 := Nat.mod_lt _ (by decide)
  rw [abs, magnitude, UInt64.toNat_ofNat']
  omega

/-- An error is zero or has a magnitude. -/
theorem elementError_eq_zero_iff (x y : Double) :
    elementError x y = .zero ↔ (elementError x y).magnitude = 0 := by
  refine ⟨fun h => by rw [h]; rfl, fun h => ?_⟩
  rw [elementError] at h ⊢
  split at h
  · rw [if_pos ‹_›]
  · rw [if_neg ‹_›]
    dsimp only at h ⊢
    split at h
    · exact absurd h (by decide)
    · rw [if_neg ‹_›]
      rw [Double.magnitude_abs] at h
      rw [Double.abs, h]
      rfl

/-- Two tensors of one shape are near under zero when every error is zero. -/
theorem near_zero_iff (hs : expected.shape = candidate.shape) :
    Double.zero.Near expected candidate ↔
      ∀ error ∈ elementErrors expected.toDoubles candidate.toDoubles, error = .zero := by
  have hsame : ∀ error ∈ elementErrors expected.toDoubles candidate.toDoubles,
      (exceeds .zero error = false ↔ error = .zero) := by
    intro error he
    obtain ⟨x, y, rfl⟩ : ∃ x y, error = elementError x y := by
      rw [elementErrors, List.mem_iff_getElem] at he
      obtain ⟨i, hi, rfl⟩ := he
      exact ⟨_, _, List.getElem_zipWith⟩
    rw [elementError_eq_zero_iff, exceeds]
    have hz : Double.zero.magnitude = 0 := rfl
    rw [hz]
    simp
  constructor
  · intro h error he
    exact (hsame error he).mp (h.errors error he)
  · intro h
    exact ⟨hs, fun error he => (hsame error he).mpr (h error he)⟩

end NetTrial
