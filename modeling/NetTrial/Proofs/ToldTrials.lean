import NetTrial.Proofs.JournalLines
/-!
# What the journal tells of a trial

Every step of a trial has a line, up to the first that fails, and the line of that step tells the
failure. A failure without a line comes of what the fixture asks for. The verdict has no line of
its own and cannot fail: it reads again what the comparison has read.
-/

namespace NetTrial

open NetTrial.Path Text NetTrial.Action

namespace Area

variable {a : Area} {fs fs' : Files} {m : Manifest} {case path : String} {role : Role}

/-! ## Records apart from the journal -/

/-- What is recorded of a case is not the file at a path. -/
def Off (a : Area) (path case : String) (role : Role) (fs : Files) : Prop :=
  ∀ e, a.Records fs case role e → location (join a.root e.file) ≠ location path

theorem Off.of_spares {spots : Location → Prop} (h : a.Off path case role fs)
    (hs : fs.Spares spots fs') (hm : ¬ spots a.manifestSpot) : a.Off path case role fs' :=
  fun e he => h e (he.of_spares hs hm)

/-- Recording another file keeps off the path. -/
theorem Off.record {entry : TensorEntry} (hl : a.Lists fs m)
    (hentry : location (join a.root entry.file) ≠ location path)
    (h : ¬ (entry.case = case ∧ entry.role = role) → a.Off path case role fs) :
    a.Off path case role (a.withManifest fs (m.record entry)) := by
  rintro e ⟨found, hsays, he⟩
  rw [says_withManifest hsays] at he
  by_cases hsame : entry.case = case ∧ entry.role = role
  · obtain ⟨rfl, rfl⟩ := hsame
    rw [m.tensor?_record] at he
    cases he
    exact hentry
  · rw [m.tensor?_record_of_ne hsame] at he
    exact h hsame e (hl.records he)

theorem loadTensor_of_spares {spots : Location → Prop} {t : Tensor}
    (h : (a.loadTensor case role).run fs = (.ok t, fs)) (hs : fs.Spares spots fs')
    (hm : ¬ spots a.manifestSpot)
    (hfile : ∀ e, a.Records fs case role e → ¬ spots (location (join a.root e.file))) :
    (a.loadTensor case role).run fs' = (.ok t, fs') := by
  obtain ⟨-, m, e, bytes, hl, he, hb, hd⟩ := loadTensor_eq_ok.mp h
  refine loadTensor_eq_ok.mpr ⟨rfl, m, e, bytes, ?_, he, hs.read hb (hfile e (hl.records he)), hd⟩
  exact hl.of_spares he hs hm

/-- A pair stays the same when neither the manifest nor the files of the pair are written. -/
theorem Pairs.of_spares {e : TensorEntry} {bytes : Bytes} {pair : StagedPair}
    (h : a.Pairs fs case e bytes pair) (hs : fs.Spares (· = location path) fs')
    (hm : a.manifestSpot ≠ location path) (hexpected : a.Off path case .expected fs)
    (hcandidate : a.Off path case .candidate fs) : a.Pairs fs' case e bytes pair := by
  obtain ⟨m, hl, he⟩ := h.entry
  exact ⟨loadTensor_of_spares h.expected hs hm hexpected, ⟨m, hl.of_spares he hs hm, he⟩,
    hs.read h.file (hcandidate e (hl.records he)), h.decoded, h.digest⟩

end Area

namespace Fixture

variable {σ : Type} {f : Fixture} {s : Setup} {j : Journal} {l : Launcher σ} {b : Bench σ}
  {a : Area} {path : String} {cause : Failure}

/-! ## The parties to a trial -/

/-- The names of the steps that have a line. -/
def stepNames : List String :=
  ["clear", "save_model", "stage", "reference", "stage", "compile", "infer", "compare"]

/-- What a trial refuses because of what the fixture asks for. -/
inductive Rejects (f : Fixture) : Failure → Prop where
  /-- The options of the compiler. -/
  | compileOptions {cause : Failure} : f.compileOptions = .error cause → Rejects f cause
  /-- The options of the runtime. -/
  | inferOptions {cause : Failure} : f.inferOptions = .error cause → Rejects f cause
  /-- The id. -/
  | id {cause : Failure} : f.checkId = .error cause → Rejects f cause
  /-- The values of the input. -/
  | input {cause : Failure} : f.input = .error cause → Rejects f cause
  /-- An input that is not the one that the model takes. -/
  | signature {input : Tensor} : f.input = .ok input →
      evaluator.accepts f.model.source.signature input = false →
      Rejects f (.config (.signature f.case (.ofTensor input) evaluator.runtimeOrder
        f.model.source.signature evaluator.interpreter.order))

theorem Rejects.reasonCode (h : f.Rejects cause) : cause.reasonCode = "harness_config_invalid" := by
  have hmap : ∀ {ε α : Type} {result : Except ε α} {fault : ε → ConfigFault},
      (result.mapError fun e => Failure.config (fault e)) = .error cause →
        cause.reasonCode = "harness_config_invalid" := by
    intro ε α result fault he
    cases result with
    | ok _ => cases he
    | error _ =>
      cases he
      rfl
  cases h with
  | compileOptions he | inferOptions he | input he => exact hmap he
  | id he =>
    rw [checkId] at he
    by_cases hfit : Area.isUnfitName f.id = true
    · rw [if_pos hfit] at he
      cases he
      rfl
    · rw [if_neg hfit] at he
      cases he
  | signature => rfl

/-- The verdict on a trial reads the pair of tensors again. -/
def Rereads (f : Fixture) (s : Setup) : Prop :=
  (f.expectInexact && s.strict) = true

/-- A request that is prepared in the directory of a case, and the files that it is launched on. -/
inductive Asks (f : Fixture) (s : Setup) (request : Request) (fs : Files) : Prop where
  /-- The compiler is launched. -/
  | compiler {format : DatasetFormat} {o : CompileOptions} {before : Files} {path : String} :
      ((s.area f format).prepareCompile s.tools.compiler o).run before =
        (.ok (request, path), fs) → Asks f s request fs
  /-- The runtime is launched. -/
  | runtime {format : DatasetFormat} {case : String} {o : InferOptions} {before : Files} :
      '/' ∉ case.toList → ((s.area f format).prepareInfer s.tools.runtime case o).run before =
        (.ok request, fs) → Asks f s request fs

/-- The journal of a trial with its launches. -/
def chronicle (f : Fixture) (s : Setup) (l : Launcher σ) (path : String) : Chronicle σ :=
  ⟨path, l, f.Asks s, f.Rejects⟩

end Fixture

/-- The launches of a trial leave the journal so that it can be continued. If the verdict reads
again what is expected, when all lines are written, they do not record the journal as that. -/
structure Launcher.KeepsJournal {σ : Type} (l : Launcher σ) (f : Fixture) (s : Setup)
    (path : String) : Prop where
  /-- The journal can be continued. -/
  opened : ∀ {request : Request} {fs : Files} (t : σ), f.Asks s request fs → fs.Open path →
    (l.launch request fs t).2.1.Open path
  /-- It is not recorded. -/
  off : f.Rereads s → ∀ {request : Request} {fs : Files} (t : σ), f.Asks s request fs →
    (s.area f .raw).Off path f.case .expected fs →
    (s.area f .raw).Off path f.case .expected (l.launch request fs t).2.1

/-- What an area does to the journal is told by its directory and not by its format. -/
theorem Launcher.KeepsJournal.endures {σ : Type} {l : Launcher σ} {f : Fixture} {s : Setup}
    {path : String} (h : l.KeepsJournal f s path)
    (hout : Files.Outside (join s.workRoot f.id) (location path)) (format : DatasetFormat)
    (fs : Files) (t : σ) :
    l.Endures s.tools (s.area f format) fun fs' t' =>
      fs'.Open path ∧ (f.chronicle s l path).Writes fs t [] fs' t' where
  within hw hk := ⟨hw.open hout hk.1, hk.2.apart (hw.held hout)⟩
  compiler hp hk := ⟨h.opened _ (.compiler hp) hk.1, hk.2.launched (.compiler hp)⟩
  runtime hc hp hk := ⟨h.opened _ (.runtime hc hp) hk.1, hk.2.launched (.runtime hc hp)⟩

namespace Fixture

variable {σ : Type} {f : Fixture} {s : Setup} {j : Journal} {l : Launcher σ} {b : Bench σ}
  {path : String} {format : DatasetFormat} {c : Chronicle σ} {a : Area}

/-! ## Staging -/

/-- What the lines of a run say of how it ends. -/
structure Tells (f : Fixture) (lines : List Journal.Line) (result : Except Failure CaseReport) :
    Prop where
  /-- The steps come in order. -/
  steps : lines.map (·.step) <+: stepNames
  /-- All but the last one passed. -/
  front : ∀ line ∈ lines.dropLast, line.failure = none
  /-- A line that tells a failure is the last one, and the run ends with that failure. -/
  failure : ∀ line ∈ lines, ∀ cause, line.failure = some cause →
    lines.getLast? = some line ∧ result = .error cause
  /-- A run with a report has all lines, whatever the verdict, and they tell no failure. -/
  reported : ∀ report, result = .ok report →
    lines.map (·.step) = stepNames ∧ ∀ line ∈ lines, line.failure = none
  /-- A failure that no line tells comes of what the fixture asks for. -/
  untold : ∀ cause, result = .error cause → (∀ line ∈ lines, line.failure = none) →
    f.Rejects cause ∧ cause.reasonCode = "harness_config_invalid"

end Fixture

end NetTrial
