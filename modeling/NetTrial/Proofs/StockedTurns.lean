import NetTrial.Proofs.AnsweredLaunches
import NetTrial.Proofs.Sessions
/-!
# Turns that go through

A turn without a journal whose task can be done leaves the directory of its site stocked, with one
more launch on the ledger if a tool was asked for. So a session that is rehearsed is followed turn
by turn by what is on record and what is there.
-/

namespace NetTrial

open NetTrial.Path Text NetTrial.Action

namespace Site

variable {σ : Type} {w : Site σ} {t : Turn} {b : Bench σ} {m : Manifest}
  {content : String → Option Bytes} {bytes : Bytes} {state next : σ → Prop} {launches : Nat}

/-- The directory of a site is stocked. The launcher is in one of some states, and so many launches
are on the ledger. -/
structure Furnished (w : Site σ) (state : σ → Prop) (launches : Nat) (m : Manifest)
    (content : String → Option Bytes) (b : Bench σ) : Prop where
  /-- The launcher. -/
  tools : state b.tools
  /-- The ledger. -/
  ledger : b.ledger.length = launches
  /-- The directory. -/
  stocked : Area.Stocked ⟨w.root, .raw⟩ b.files m content

namespace Furnished

/-- The directory is stocked in whatever format a turn works. -/
theorem area (h : w.Furnished state launches m content b) (t : Turn) :
    (w.area t).Stocked b.files m content := h.stocked.of_root

theorem of_answered (h : (w.area t).Answered next m content b b')
    (hledger : b.ledger.length = launches) :
    w.Furnished next (launches + 1) m content b' :=
  ⟨h.tools, by rw [h.ledger, hledger], h.stocked.of_root⟩

/-- A turn that clears the directory. -/
theorem of_clear (hj : t.journal.path = none) (ht : t.task = .clear) {fs : Files}
    (hreset : (w.area t).reset.run b.files = (.ok (), fs)) (hv : (w.area t).Vacant fs)
    (ha : Files.admits w.root Area.manifestName = .ok ()) :
    w.Furnished (· = b.tools) b.ledger.length .empty (fun _ => none) (w.step b t) := by
  obtain ⟨bare, hcloses, hstep⟩ := step_clear (w := w) ht b
  rw [hstep, hcloses.silent hj, hreset]
  exact ⟨rfl, rfl, (hv.stocked ha).of_root⟩

theorem saveModel (h : w.Furnished state launches m content b) (hj : t.journal.path = none)
    {source : ModelSource} (ht : t.task = .saveModel source) (hb : source.serialized = .ok bytes)
    (hn : (w.area t).Offers (Area.modelFile source.format)) :
    ((w.perform t).run b).1 = .ok none ∧
      w.Furnished state launches { m with model := some (Area.modelEntryOf source bytes) }
        (Function.update content (Area.modelFile source.format) (some bytes)) (w.step b t) := by
  obtain ⟨fs, hrun, hstocked⟩ := (h.area t).stageModel hb hn
  obtain ⟨hcloses, hperform⟩ := step_saveModel (w := w) ht b
  rw [step, hperform, hcloses.silent hj, hrun]
  exact ⟨rfl, h.tools, h.ledger, hstocked.of_root⟩

theorem saveTensor (h : w.Furnished state launches m content b) (hj : t.journal.path = none)
    {case : String} {role : Role} {tensor : Tensor} (ht : t.task = .saveTensor case role tensor)
    (hc : Area.checkCase case = .ok ()) (hb : (w.area t).fileBytes case role tensor = .ok bytes)
    (ha : Files.admits w.root ((w.area t).tensorFile case role) = .ok ())
    (hfits : tensor.shape.Fits) :
    w.Furnished state launches (m.record ((w.area t).entryOf case role tensor bytes))
      (Function.update content ((w.area t).tensorFile case role) (some bytes)) (w.step b t) := by
  obtain ⟨fs, hrun, hstocked⟩ := (h.area t).stageTensor hc hb ha hfits
  obtain ⟨logged, hcloses, hstep⟩ := step_saveTensor (w := w) ht b
  rw [hstep, hcloses.silent hj, hrun]
  exact ⟨h.tools, h.ledger, hstocked.of_root⟩

variable {answer : Answer}

/-- A compilation launches the compiler, and leaves what it delivers whether it succeeds or not. -/
theorem compile (h : w.Furnished state launches m content b) (hj : t.journal.path = none)
    {o : CompileOptions} (ht : t.task = .compile o)
    (hready : (w.area t).Compilable o m content) (hc : w.tools.compiler.leading = [])
    (hl : ∀ s, state s → w.launcher.Answers s answer next) :
    w.Furnished next (launches + 1) m (Function.update content Area.artifactName answer.output)
      (w.step b t) := by
  have hends := (h.area t).compileStaged hready hc (hl _ h.tools)
  obtain ⟨hcloses, hperform⟩ := step_compile (w := w) ht b
  rw [step, hperform, hcloses.silent hj]
  rcases hrun : ((w.area t).compileStaged w.launcher w.tools.compiler o).run b with ⟨e | _, b'⟩
  · exact .of_answered (hends.of_error hrun).1 h.ledger
  · exact .of_answered (hends.of_ok hrun).1 h.ledger

/-- A compilation whose compiler ends badly fails. -/
theorem compile_failed (h : w.Furnished state launches m content b) (hj : t.journal.path = none)
    {o : CompileOptions} (ht : t.task = .compile o)
    (hready : (w.area t).Compilable o m content) (hc : w.tools.compiler.leading = [])
    (hl : ∀ s, state s → w.launcher.Answers s answer next) (hcode : answer.exitCode ≠ 0)
    (hout : answer.output ≠ none) :
    reasonOf ((w.perform t).run b).1 = some "harness_compile_failed" := by
  have hends := (h.area t).compileStaged hready hc (hl _ h.tools)
  obtain ⟨hcloses, hperform⟩ := step_compile (w := w) ht b
  rw [hperform, hcloses.silent hj]
  rcases hrun : ((w.area t).compileStaged w.launcher w.tools.compiler o).run b with ⟨e | _, b'⟩
  · obtain ⟨-, ⟨-, hreason⟩ | hnone⟩ := hends.of_error hrun
    · exact congrArg some hreason
    · exact absurd hnone hout
  · exact absurd (hends.of_ok hrun).2 hcode

/-- With the model in place of the artifact a compilation launches nothing, and the model is
gone. -/
theorem compile_misplaced (h : w.Furnished state launches m content b)
    (hj : t.journal.path = none) {o : CompileOptions} (ht : t.task = .compile o)
    (hready : (w.area t).Submitted o m content)
    (hsame : ∀ model, m.model = some model → model.file = Area.artifactName) :
    w.Furnished state launches m (Function.update content Area.artifactName none) (w.step b t) := by
  have hends := (h.area t).compileStaged_misplaced (l := w.launcher) (c := w.tools.compiler)
    hready hsame
  obtain ⟨hcloses, hperform⟩ := step_compile (w := w) ht b
  rw [step, hperform, hcloses.silent hj]
  rcases hrun : ((w.area t).compileStaged w.launcher w.tools.compiler o).run b with ⟨e | _, b'⟩
  · obtain ⟨htools, hledger, hstocked⟩ := hends.of_error hrun
    exact ⟨htools ▸ h.tools, by rw [hledger, h.ledger], hstocked.of_root⟩
  · exact (hends.of_ok hrun).elim

/-- An inference whose runtime ends well succeeds, and puts a candidate on record that can be told
of. -/
theorem infer (h : w.Furnished state launches m content b) (hj : t.journal.path = none)
    {case : String} {o : InferOptions} (ht : t.task = .infer case o)
    (hready : (w.area t).Inferable case o m content) (hc : w.tools.runtime.leading = [])
    (hl : ∀ s, state s → w.launcher.Answers s ⟨some bytes, 0⟩ next)
    {told : Option Shape × ElementType}
    (hd : (w.area t).describe ((w.area t).tensorPath case .candidate) bytes .f32 = .ok told) :
    ((w.perform t).run b).1 = .ok none ∧
      w.Furnished next (launches + 1)
        (m.record ((w.area t).externalEntry case .candidate told bytes))
        (Function.update content ((w.area t).tensorFile case .candidate) (some bytes))
        (w.step b t) := by
  have hends := (h.area t).inferStaged hready hc (hl _ h.tools)
  obtain ⟨hcloses, hperform⟩ := step_infer (w := w) ht b
  rw [step, hperform, hcloses.silent hj]
  rcases hrun : ((w.area t).inferStaged w.launcher w.tools.runtime case o).run b with ⟨e | _, b'⟩
  · obtain ⟨-, ⟨hcode, -⟩ | hunread⟩ := hends.of_error hrun
    · exact absurd rfl hcode
    · exact absurd hd (hunread bytes told rfl)
  · obtain ⟨-, found, told', hfound, hd', hanswered⟩ := hends.of_ok hrun
    cases hfound
    rw [hd] at hd'
    cases hd'
    exact ⟨rfl, .of_answered hanswered h.ledger⟩

/-- An inference whose runtime ends badly fails, and leaves what the runtime delivers. -/
theorem infer_failed (h : w.Furnished state launches m content b) (hj : t.journal.path = none)
    {case : String} {o : InferOptions} (ht : t.task = .infer case o)
    (hready : (w.area t).Inferable case o m content) (hc : w.tools.runtime.leading = [])
    (hl : ∀ s, state s → w.launcher.Answers s answer next) (hcode : answer.exitCode ≠ 0)
    {told : Option Shape × ElementType} (hout : answer.output = some bytes)
    (hd : (w.area t).describe ((w.area t).tensorPath case .candidate) bytes .f32 = .ok told) :
    reasonOf (((w.area t).infer t.journal w.launcher w.tools.runtime case o).run b).1 =
        some "harness_infer_failed" ∧
      w.Furnished next (launches + 1) m
        (Function.update content ((w.area t).tensorFile case .candidate) (some bytes))
        (w.step b t) := by
  have hends := (h.area t).inferStaged hready hc (hl _ h.tools)
  obtain ⟨hcloses, hperform⟩ := step_infer (w := w) ht b
  rw [step, hperform, hcloses.silent hj]
  rcases hrun : ((w.area t).inferStaged w.launcher w.tools.runtime case o).run b with ⟨e | _, b'⟩
  · obtain ⟨hanswered, ⟨-, hreason⟩ | hunread⟩ := hends.of_error hrun
    · rw [hout] at hanswered
      exact ⟨congrArg some hreason, .of_answered hanswered h.ledger⟩
    · exact absurd hd (hunread bytes told hout)
  · exact absurd (hends.of_ok hrun).1 hcode

/-- An inference that is prepared launches the runtime, however it ends. The runtime finds no
candidate, and all else as it was. -/
theorem infer_launches (h : w.Furnished state launches m content b) (hj : t.journal.path = none)
    {case : String} {o : InferOptions} (ht : t.task = .infer case o)
    (hready : (w.area t).Inferable case o m content) (hc : w.tools.runtime.leading = [])
    (hl : ∀ s, state s → w.launcher.Answers s answer next) :
    next (w.step b t).tools ∧ (w.step b t).ledger.length = b.ledger.length + 1 ∧ ∃ request fs,
      ((w.area t).prepareInfer w.tools.runtime case o).run b.files = (.ok request, fs) ∧
      (w.area t).Stocked fs m
        (Function.update content ((w.area t).tensorFile case .candidate) none) := by
  have hends := (h.area t).inferStaged hready hc (hl _ h.tools)
  obtain ⟨hcloses, hperform⟩ := step_infer (w := w) ht b
  obtain ⟨fs, hprepared, -, hstocked⟩ := (h.area t).prepareInfer hready w.tools.runtime
  have hanswered : next (w.step b t).tools ∧ (w.step b t).ledger.length = b.ledger.length + 1 := by
    rw [step, hperform, hcloses.silent hj]
    rcases hrun : ((w.area t).inferStaged w.launcher w.tools.runtime case o).run b with ⟨e | _, b'⟩
    · have hanswered := (hends.of_error hrun).1
      exact ⟨hanswered.tools, hanswered.ledger⟩
    · obtain ⟨-, found, told, -, -, hanswered⟩ := hends.of_ok hrun
      exact ⟨hanswered.tools, hanswered.ledger⟩
  exact ⟨hanswered.1, hanswered.2, _, fs, hprepared, hstocked⟩

end Furnished

/-! ## The rehearsed session -/

/-- A graph. -/
def graphSource : ModelSource := ⟨⟨[1], .f32⟩, .graph, .ok []⟩

section Rehearsed

variable (tools : Toolchain) (l : Launcher σ)

/-- After a first clearing nothing is there. -/
theorem furnished_cleared (hb : b.files = .empty) :
    Furnished ⟨"w", tools, l⟩ (· = b.tools) b.ledger.length .empty (fun _ => none)
      (step ⟨"w", tools, l⟩ b (quietly .clear)) := by
  obtain ⟨fs, hreset⟩ : ∃ fs, (Area.reset ⟨"w", .raw⟩).run .empty = (.ok (), fs) := ⟨_, rfl⟩
  have hvacant := Area.vacant_of_empty (show ".." ∉ pieces "w" by decide) hreset
  have hmanifest : Files.admits "w" Area.manifestName = .ok () := by rfl
  exact .of_clear rfl rfl (hb ▸ hreset) hvacant hmanifest

theorem offers_graph : Area.Offers ⟨"w", .raw⟩ Area.graphName :=
  ⟨Area.isName_graph, by decide, rfl⟩

/-- After a clearing model and input are staged. -/
theorem furnished_sources (hb : b.files = .empty) {source : ModelSource}
    (hbytes : source.serialized = .ok bytes)
    (hmodel : Area.Offers ⟨"w", .raw⟩ (Area.modelFile source.format))
    (hne : Area.modelFile source.format ≠ Area.tensorFile ⟨"w", .raw⟩ "case" .input) :
    ∃ m content, Furnished ⟨"w", tools, l⟩ (· = b.tools) b.ledger.length m content
        (after ⟨"w", tools, l⟩ b
          ([.clear, .saveModel source, .saveTensor "case" .input one].map quietly)) ∧
      Area.Provides ⟨"w", .raw⟩ "case" source m content ∧
      content (Area.tensorFile ⟨"w", .raw⟩ "case" .input) = some one.elements.toBytes := by
  have hoffers : Area.Offers ⟨"w", .raw⟩ (Area.tensorFile ⟨"w", .raw⟩ "case" .input) :=
    Area.offers_tensorFile rfl rfl
  have hcleared := furnished_cleared tools l hb
  have hstored := (hcleared.saveModel (t := quietly (.saveModel source)) rfl rfl hbytes hmodel).2
  have hinput := hstored.saveTensor (t := quietly (.saveTensor "case" .input one)) rfl rfl rfl
    rfl hoffers.admitted (show ∀ d ∈ one.shape, d < wordLimit by decide)
  have hfed := hoffers.stores (Function.update (fun _ => none) (Area.modelFile source.format)
    (some bytes)) one.elements.toBytes
  refine ⟨_, _, hinput, ⟨⟨bytes, rfl⟩, (hmodel.stores _ _).update hne _,
    ⟨_, _, Manifest.tensor?_record _ _, rfl, hfed⟩, hfed⟩, Function.update_self ..⟩

/-- After the staging model and input are there. -/
theorem furnished_staging (hb : b.files = .empty) : ∃ m content,
    Furnished ⟨"w", tools, l⟩ (· = b.tools) b.ledger.length m content
      (after ⟨"w", tools, l⟩ b staging) ∧
    Area.Provides ⟨"w", .raw⟩ "case" graphSource m content ∧
    content (Area.tensorFile ⟨"w", .raw⟩ "case" .input) = some one.elements.toBytes :=
  furnished_sources tools l hb (show graphSource.serialized = .ok [] from rfl) offers_graph
    (Area.tensorFile_ne_fixed _ Area.graph_fixed "case" .input).symm

/-- What was staged can be compiled. -/
theorem compilable_graph (h : Area.Provides ⟨"w", .raw⟩ "case" graphSource m content) :
    Area.Compilable ⟨"w", .raw⟩ {} m content :=
  h.compilable rfl (show Area.graphName ≠ Area.artifactName by decide) rfl rfl (by rfl)

/-- It is still there after a compilation. -/
theorem provides_compiled {a : Area} (h : a.Provides "case" graphSource m content)
    (value : Option Bytes) :
    a.Provides "case" graphSource m (Function.update content Area.artifactName value) :=
  h.compile (show Area.graphName ≠ Area.artifactName by decide) value

/-- With an artifact it can be run. -/
theorem inferable_graph (h : Area.Provides ⟨"w", .raw⟩ "case" graphSource m content)
    (hartifact : content Area.artifactName = some bytes) :
    Area.Inferable ⟨"w", .raw⟩ "case" {} m content :=
  h.inferable ⟨Area.offers_artifact (by rfl), by rw [hartifact]; rfl⟩ rfl rfl (by rfl)

/-- After the staging and a compilation that leaves an artifact, an inference can be prepared. -/
theorem furnished_compiled (hb : b.files = .empty) (hc : tools.compiler.leading = [])
    {code : Int} (hl : l.Answers b.tools ⟨some bytes, code⟩ next) : ∃ m content,
    Furnished ⟨"w", tools, l⟩ next (b.ledger.length + 1) m content
      (after ⟨"w", tools, l⟩ b (staging ++ [quietly (.compile {})])) ∧
    Area.Inferable ⟨"w", .raw⟩ "case" {} m content := by
  obtain ⟨m, content, hstaged, hprovides, -⟩ := furnished_staging tools l hb
  have hcompiled := hstaged.compile (t := quietly (.compile {})) rfl rfl
    (compilable_graph hprovides) hc (by rintro _ rfl; exact hl)
  rw [after_append]
  exact ⟨_, _, hcompiled, inferable_graph (provides_compiled hprovides _)
    (Function.update_self ..)⟩

end Rehearsed

end Site

end NetTrial
