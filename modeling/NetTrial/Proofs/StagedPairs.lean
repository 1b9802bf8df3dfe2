import NetTrial.Proofs.Holdings
import NetTrial.Proofs.StockedAreas
/-!
# Inputs and what is expected of them

Staging what is expected of a case stages the input first, evaluates the model and then stages
the output. A call that fails in between has replaced the input and leaves what an earlier call
expected. The area holds exactly what the calls staged so far, so an input and an expected
tensor that are both there belong together exactly when the last call that staged anything for
the case came to its end.
-/

namespace NetTrial

open NetTrial.Path Text

/-! ## Files of tensors that a machine can hold -/

namespace Tensor

variable {t : Tensor}

/-- Bytes of the elements of a tensor are read as the tensor, if they are read at all. -/
theorem ofPayload_gives (t : Tensor) :
    Gives (ofPayload t.shape t.elementType t.elements.toBytes) (· = t) := by
  rw [ofPayload]
  refine .mapError ?_ _
  rw [elementType, Elements.ofBytes_toBytes, ofElements]
  refine gives_bind fun count => ?_
  exact gives_ite (gives_ok rfl) gives_error

/-- The file of a tensor is read as the tensor, if it is read at all. -/
theorem ofFile_gives (hdims : t.shape.Fits) {format : DatasetFormat} {file : Bytes}
    (hw : t.toFile format = .ok file) :
    Gives (ofFile file format t.shape t.elementType) (· = t) := by
  cases format with
  | raw =>
    cases hw
    exact gives_bind fun _ => t.ofPayload_gives
  | npy =>
    have hwords : ∀ d ∈ t.shape, d < wordLimit := hdims
    have hread := Npy.read_write hwords hw
    rw [ofFile, Npy.readTensor, hread]
    exact t.ofPayload_gives

end Tensor

namespace Area

variable {a : Area} {fs fs' : Files} {m : Manifest} {held : Holdings} {case : String} {role : Role}
  {t : Tensor}

/-- The entry of a staged tensor decodes its file to the tensor, if it decodes it at all. -/
theorem decodeEntry_gives (hdims : t.shape.Fits) {bytes : Bytes}
    (hb : a.fileBytes case role t = .ok bytes) :
    Gives (decodeEntry (a.entryOf case role t bytes) bytes) (· = t) := by
  simp only [decodeEntry, entryOf, parse_name, parse?_name]
  exact (Tensor.ofFile_gives hdims (fileBytes_eq_ok.mp hb)).mapError _

/-! ## What the shelves hold -/

/-- A tensor is on the shelf of its case and role: it is recorded by its entry, and its file is
there. -/
structure Shelved (a : Area) (fs : Files) (m : Manifest) (case : String) (role : Role) (t : Tensor)
    (bytes : Bytes) : Prop where
  /-- The bytes are those of the tensor. -/
  written : a.fileBytes case role t = .ok bytes
  /-- The dimensions are words. -/
  dims : t.shape.Fits
  /-- The case makes a file name of its own. -/
  named : checkCase case = .ok ()
  /-- The tensor is recorded. -/
  recorded : m.tensor? case role = some (a.entryOf case role t bytes)
  /-- The file is there. -/
  file : fs.get? (location a.root ++ [a.tensorFile case role]) = some (.file bytes)

/-- The area records the tensors of a map and no others, and has their files. -/
structure Shelves (a : Area) (fs : Files) (held : Holdings) (m : Manifest) : Prop where
  /-- The root is a directory. -/
  stands : fs.Stands a.root
  /-- The manifest is this one. -/
  listed : a.Lists fs m
  /-- What is not held is not recorded. -/
  bare : ∀ case role, held case role = none → m.tensor? case role = none
  /-- What is held is on its shelf. -/
  full : ∀ case role t, held case role = some t → ∃ bytes, a.Shelved fs m case role t bytes

/-- An area that lists no tensors has empty shelves. -/
theorem shelves_none (hs : fs.Stands a.root) (hl : a.Lists fs m) (ht : m.tensors = []) :
    a.Shelves fs .none m := by
  refine ⟨hs, hl, fun case role _ => ?_, fun case role t h => ?_⟩
  · rw [Manifest.tensor?, ht]
    rfl
  · cases h

/-- A tensor that is loaded is the one on the shelf. -/
theorem Shelves.held_of_load (h : a.Shelves fs held m) {fs' : Files}
    (hload : (a.loadTensor case role).run fs = (.ok t, fs')) : held case role = some t := by
  obtain ⟨-, m', e, bytes, hl, he, hb, hd⟩ := loadTensor_eq_ok.mp hload
  obtain rfl := h.listed.unique hl
  cases hheld : held case role with
  | none =>
    rw [h.bare case role hheld] at he
    cases he
  | some found =>
    obtain ⟨own, hshelved⟩ := h.full case role found hheld
    rw [hshelved.recorded] at he
    cases he
    have hname := a.isName_tensorFile (checkCase_ok hshelved.named).1 role
    have hfile := ((Files.read_join_eq_ok hname).mp hb).2.2
    change fs.get? (location a.root ++ [a.tensorFile case role]) = _ at hfile
    rw [hshelved.file] at hfile
    cases hfile
    rw [(decodeEntry_gives hshelved.dims hshelved.written).of_ok hd]

/-- What leaves the area as it was leaves the shelves. -/
theorem Shelves.of_leaves (h : a.Shelves fs held m)
    (hsame : Journal.Leaves (location a.root) fs fs') : a.Shelves fs' held m := by
  have hstands := h.stands.mono hsame.directory
  refine ⟨hstands, h.listed.congr h.stands hstands ?_, h.bare, fun case role t ht => ?_⟩
  · exact hsame.same _ (List.prefix_append _ _)
  · obtain ⟨bytes, hshelved⟩ := h.full case role t ht
    refine ⟨bytes, { hshelved with file := ?_ }⟩
    rw [hsame.same _ (List.prefix_append _ _), hshelved.file]

/-- Recording a tensor whose file is written puts it on its shelf. -/
theorem Shelves.record (h : a.Shelves fs held m) {bytes : Bytes} (hdims : t.shape.Fits)
    (hc : checkCase case = .ok ()) (hb : a.fileBytes case role t = .ok bytes)
    (hd : fs.get? (location a.root ++ [a.tensorFile case role]) ≠ some .directory) :
    a.Shelves (a.withEntry fs (a.tensorFile case role) bytes
        (m.record (a.entryOf case role t bytes)))
      (held.put case role t) (m.record (a.entryOf case role t bytes)) := by
  have hne : ∀ c r, a.tensorFile c r ≠ manifestName := a.tensorFile_ne_fixed manifest_fixed
  have hentry : ∀ c r, location a.root ++ [a.tensorFile c r] ≠ a.manifestSpot :=
    fun c r => entry_ne (hne c r)
  refine ⟨withEntry_stands h.stands h.listed (hne case role) hd bytes _, ?_, ?_, ?_⟩
  · exact withEntry_lists h.stands h.listed (hne case role) hd bytes
      (h.listed.fits.record (fits_entryOf hdims bytes))
  · intro c r hcr
    have hother : ¬ (c = case ∧ r = role) := by
      rintro ⟨rfl, rfl⟩
      rw [Holdings.put_same] at hcr
      cases hcr
    rw [Holdings.put_of_ne held t hother] at hcr
    rw [Manifest.tensor?_record_of_ne m fun he => hother ⟨he.1.symm, he.2.symm⟩]
    exact h.bare c r hcr
  · intro c r t' hcr
    by_cases hnew : c = case ∧ r = role
    · obtain ⟨rfl, rfl⟩ := hnew
      rw [Holdings.put_same] at hcr
      cases hcr
      refine ⟨bytes, hb, hdims, hc, m.tensor?_record _, ?_⟩
      rw [withEntry_get?, if_neg (hentry c r), if_pos rfl]
    · rw [Holdings.put_of_ne held t hnew] at hcr
      obtain ⟨own, hshelved⟩ := h.full c r t' hcr
      refine ⟨own, { hshelved with recorded := ?_, file := ?_ }⟩
      · rw [Manifest.tensor?_record_of_ne m fun he => hnew ⟨he.1.symm, he.2.symm⟩]
        exact hshelved.recorded
      · rw [withEntry_get?, if_neg (hentry c r), if_neg, hshelved.file]
        intro he
        obtain ⟨hcase, hrole, -⟩ := tensorFile_inj (entry_inj he)
        exact hnew ⟨hcase, hrole⟩

/-- A staged tensor is put on its shelf; a refused one leaves the files. -/
theorem Shelves.stageTensor (h : a.Shelves fs held m) (case : String) (role : Role)
    (hdims : t.shape.Fits) :
    (∃ e, (a.stageTensor case role t).run fs = (.error e, fs)) ∨
      ∃ path fs' m', (a.stageTensor case role t).run fs = (.ok path, fs') ∧
        a.Shelves fs' (held.put case role t) m' := by
  rcases stageTensor_listed h.stands h.listed case role t with
    hrefused | ⟨bytes, hc, hb, -, hd, hrun⟩
  · exact Or.inl hrefused
  · exact Or.inr ⟨_, _, _, hrun, h.record hdims hc hb hd⟩

/-- A tensor that is saved with a line in a journal kept elsewhere is put on its shelf, whether or
not the line can be written; one that is refused leaves the shelves. -/
theorem Shelves.saveTensor (h : a.Shelves fs held m) {j : Journal} (hj : j.Apart (location a.root))
    (case : String) (role : Role) (hdims : t.shape.Fits) :
    ((∃ e, ((a.stageTensor case role t).run fs).1 = .error e) ∧
      (∃ e, ((a.saveTensor j case role t).run fs).1 = .error e) ∧
        a.Shelves ((a.saveTensor j case role t).run fs).2 held m) ∨
    (∃ path, ((a.stageTensor case role t).run fs).1 = .ok path) ∧
      ∃ m', a.Shelves ((a.saveTensor j case role t).run fs).2 (held.put case role t) m' := by
  have hcloses := a.saveTensor_closes j case role t fs
  have hleaves := hcloses.leaves hj
  rcases h.stageTensor case role hdims with ⟨e, he⟩ | ⟨path, fs', m', hok, hm'⟩
  · rw [he] at hcloses hleaves ⊢
    exact Or.inl ⟨⟨e, rfl⟩, ⟨e, hcloses.failed rfl⟩, h.of_leaves hleaves⟩
  · rw [hok] at hleaves ⊢
    exact Or.inr ⟨⟨path, rfl⟩, m', hm'.of_leaves hleaves⟩

end Area

/-! ## Calls -/

/-- A call that stages an input for a case and what a model makes of it. -/
structure ReferenceCall where
  /-- The evaluator. -/
  evaluator : Evaluator
  /-- The case. -/
  case : String
  /-- The model. -/
  source : ModelSource
  /-- The input. -/
  input : Tensor

/-- How far a call came: what it staged. -/
inductive Reach where
  /-- Nothing was staged. -/
  | nothing
  /-- The input was staged. -/
  | input
  /-- The input was staged, and then what is expected of it. -/
  | both (expected : Tensor)
  deriving DecidableEq

/-- Calls in order, each with how far it came. -/
abbrev Trace := List (ReferenceCall × Reach)

namespace ReferenceCall

variable {a : Area} {j : Journal} {fs : Files} {held : Holdings} {m : Manifest}

/-- What the model makes of the input. -/
def reference (c : ReferenceCall) : Except Failure Tensor := do
  let serialized ← c.source.serialized.mapError .modelInvalid
  c.evaluator.evaluate serialized c.input

/-- The dimensions of input and output are words. -/
structure Fits (c : ReferenceCall) : Prop where
  /-- Those of the input are. -/
  input : c.input.shape.Fits
  /-- Those of the output are. -/
  output : ∀ t, c.reference = .ok t → t.shape.Fits

/-- Makes a call. -/
def perform (c : ReferenceCall) (a : Area) (j : Journal) : Action Files Tensor :=
  c.evaluator.stageExpected a j c.case c.source c.input

/-- Computes the reference output, with a line in the journal. -/
def refer (c : ReferenceCall) (a : Area) (j : Journal) : Action Files Tensor :=
  j.logged c.case "reference" do
    Step.noteArtifact (a.tensorPath c.case .input)
    let serialized ← Step.act (.settle (c.source.serialized.mapError .modelInvalid))
    Step.note fun n => { n with inputDigest := Digest.sha256Hex c.input.elements.toBytes }
    let expected ← Step.act (.settle (c.evaluator.evaluate serialized c.input))
    Step.note fun n => { n with
      outputDigest := Digest.sha256Hex expected.elements.toBytes
      detail := c.evaluator.interpreter.name ++ " shape=" ++ listText expected.shape }
    return expected

theorem refer_closes (c : ReferenceCall) (a : Area) (j : Journal) (fs : Files) :
    j.Closes "reference" (c.reference, fs) ((c.refer a j).run fs) := by
  have hbare : ((Action.settle (c.source.serialized.mapError .modelInvalid) >>= fun serialized =>
      Action.settle (c.evaluator.evaluate serialized c.input)) : Action Files Tensor).run fs =
        (c.reference, fs) := by
    rw [Action.run_settle_bind, reference]
    cases c.source.serialized <;> rfl
  rw [← hbare]
  refine j.logged_run c.case "reference" ?_ fs
  refine .note_bind _ (.bind (.act _) fun serialized => ?_)
  refine .note_bind _ (.of_bind_pure (.bind (.act _) fun expected => ?_))
  exact .note_bind _ (.pure _)

/-- A call for an input that the model does not take is refused. -/
theorem perform_refused {c : ReferenceCall}
    (h : c.evaluator.accepts c.source.signature c.input = false) (a : Area) (j : Journal)
    (fs : Files) : ∃ e, (c.perform a j).run fs = (.error e, fs) := by
  rw [perform, Evaluator.stageExpected, h]
  exact ⟨_, rfl⟩

/-- Any other call stages the input, computes the reference output and stages it. -/
theorem perform_accepted {c : ReferenceCall}
    (h : c.evaluator.accepts c.source.signature c.input = true) (a : Area) (j : Journal) :
    c.perform a j = (do
      let _ ← a.saveTensor j c.case .input c.input
      let expected ← c.refer a j
      let _ ← a.saveTensor j c.case .expected expected
      return expected) := by
  rw [perform, Evaluator.stageExpected, h]
  rfl

/-- How far a call comes. A tensor counts as staged also when only the line of its step cannot be
written, which ends the call. -/
def reach (c : ReferenceCall) (a : Area) (j : Journal) (fs : Files) : Reach :=
  if c.evaluator.accepts c.source.signature c.input then
    match ((a.stageTensor c.case .input c.input).run fs).1 with
    | .error _ => .nothing
    | .ok _ =>
      match (a.saveTensor j c.case .input c.input >>= fun _ => c.refer a j).run fs with
      | (.error _, _) => .input
      | (.ok expected, fs) =>
        match ((a.stageTensor c.case .expected expected).run fs).1 with
        | .error _ => .input
        | .ok _ => .both expected
  else .nothing

/-- What is held after a call that came so far. -/
def mark (c : ReferenceCall) : Reach → Holdings → Holdings
  | .nothing, held => held
  | .input, held => held.put c.case .input c.input
  | .both expected, held => (held.put c.case .input c.input).put c.case .expected expected

/-- A call puts on the shelves what it staged. -/
theorem perform_shelves {c : ReferenceCall} (hj : j.Apart (location a.root))
    (h : a.Shelves fs held m) (hc : c.Fits) :
    (∃ m', a.Shelves ((c.perform a j).run fs).2 (c.mark (c.reach a j fs) held) m') ∧
      ∀ t, c.reach a j fs = .both t → c.reference = .ok t := by
  cases haccepts : c.evaluator.accepts c.source.signature c.input with
  | false =>
    obtain ⟨e, he⟩ := perform_refused haccepts a j fs
    have hreach : c.reach a j fs = .nothing := by
      rw [reach, haccepts]
      rfl
    rw [he, hreach]
    exact ⟨⟨m, h⟩, fun t ht => by cases ht⟩
  | true =>
    rw [perform_accepted haccepts, reach, if_pos haccepts]
    rcases h.saveTensor hj c.case .input hc.input with
      ⟨⟨e, he⟩, ⟨e', he'⟩, hm⟩ | ⟨⟨path, hpath⟩, m₁, hm₁⟩
    · rw [he, Action.run_bind_of_error (Prod.ext he' rfl)]
      exact ⟨⟨m, hm⟩, fun t ht => by cases ht⟩
    rw [hpath]
    rcases hsave : (a.saveTensor j c.case .input c.input).run fs with ⟨e | path', fs₁⟩
    · rw [hsave] at hm₁
      simp only [Action.run_bind_of_error hsave]
      exact ⟨⟨m₁, hm₁⟩, fun t ht => by cases ht⟩
    rw [hsave] at hm₁
    simp only [Action.run_bind_of_ok hsave]
    have hcloses := c.refer_closes a j fs₁
    have hm₂ := hm₁.of_leaves (hcloses.leaves hj)
    rcases hrefer : (c.refer a j).run fs₁ with ⟨e | expected, fs₂⟩
    · rw [hrefer] at hm₂
      simp only [Action.run_bind_of_error hrefer]
      exact ⟨⟨m₁, hm₂⟩, fun t ht => by cases ht⟩
    rw [hrefer] at hm₂ hcloses
    have href : c.reference = .ok expected := hcloses.ok rfl
    simp only [Action.run_bind_of_ok hrefer, Action.run_bind_pure]
    rcases hm₂.saveTensor hj c.case .expected (hc.output expected href) with
      ⟨⟨e, he⟩, -, hm⟩ | ⟨⟨path, hpath⟩, m₃, hm₃⟩
    · rw [he]
      exact ⟨⟨m₁, hm⟩, fun t ht => by cases ht⟩
    · rw [hpath]
      refine ⟨⟨m₃, hm₃⟩, fun t ht => ?_⟩
      cases ht
      exact href

/-! ### Calls in a stocked area -/

section Stocked

variable {content : String → Option Bytes} {c : ReferenceCall} {bytes : Bytes}

/-- A call whose reference output cannot be computed stages the input. -/
theorem stocked_of_error (h : a.Stocked fs m content) (hj : j.path = none)
    (haccepts : c.evaluator.accepts c.source.signature c.input = true)
    (hcase : Area.checkCase c.case = .ok ()) (hb : a.fileBytes c.case .input c.input = .ok bytes)
    (ha : Files.admits a.root (a.tensorFile c.case .input) = .ok ())
    (hdims : c.input.shape.Fits) {e : Failure} (href : c.reference = .error e) :
    c.reach a j fs = .input ∧ a.Stocked ((c.perform a j).run fs).2
      (m.record (a.entryOf c.case .input c.input bytes))
      (Function.update content (a.tensorFile c.case .input) (some bytes)) := by
  obtain ⟨fs₁, hstage, hstocked⟩ := h.stageTensor hcase hb ha hdims
  have hsave := (a.saveTensor_closes j c.case .input c.input fs).silent hj
  have hrefer := (c.refer_closes a j fs₁).silent hj
  rw [hstage] at hsave
  rw [href] at hrefer
  rw [reach, if_pos haccepts, perform_accepted haccepts]
  simp only [hstage, Action.run_bind_of_ok hsave, Action.run_bind_of_error hrefer, hrefer]
  exact ⟨trivial, hstocked⟩

/-- A call whose reference output can be computed and written stages both. -/
theorem stocked_of_ok (h : a.Stocked fs m content) (hj : j.path = none)
    (haccepts : c.evaluator.accepts c.source.signature c.input = true)
    (hcase : Area.checkCase c.case = .ok ()) (hb : a.fileBytes c.case .input c.input = .ok bytes)
    (ha : ∀ role, Files.admits a.root (a.tensorFile c.case role) = .ok ()) (hc : c.Fits)
    {t : Tensor} (href : c.reference = .ok t) {bytes' : Bytes}
    (hb' : a.fileBytes c.case .expected t = .ok bytes') :
    c.reach a j fs = .both t ∧ a.Stocked ((c.perform a j).run fs).2
      ((m.record (a.entryOf c.case .input c.input bytes)).record
        (a.entryOf c.case .expected t bytes'))
      (Function.update (Function.update content (a.tensorFile c.case .input) (some bytes))
        (a.tensorFile c.case .expected) (some bytes')) := by
  obtain ⟨fs₁, hstage, hinput⟩ := h.stageTensor hcase hb (ha .input) hc.input
  obtain ⟨fs₂, hstage', hboth⟩ := hinput.stageTensor hcase hb' (ha .expected) (hc.output t href)
  have hsave := (a.saveTensor_closes j c.case .input c.input fs).silent hj
  have hrefer := (c.refer_closes a j fs₁).silent hj
  have hsave' := (a.saveTensor_closes j c.case .expected t fs₁).silent hj
  rw [hstage] at hsave
  rw [href] at hrefer
  rw [hstage'] at hsave'
  rw [reach, if_pos haccepts, perform_accepted haccepts]
  simp only [hstage, Action.run_bind_of_ok hsave, Action.run_bind_of_ok hrefer, hrefer, hstage',
    Action.run_bind_of_ok hsave']
  exact ⟨trivial, hboth⟩

end Stocked

end ReferenceCall

/-! ## Traces -/

namespace Trace

variable {trace : Trace} {case : String}

/-- What is held after the calls of a trace, from what was held before. -/
def holdings (trace : Trace) (held : Holdings) : Holdings :=
  trace.foldl (fun held r => r.1.mark r.2 held) held

/-- A call is the last one that staged anything for a case. -/
def Last (trace : Trace) (case : String) (c : ReferenceCall) (reach : Reach) : Prop :=
  ∃ front back, trace = front ++ (c, reach) :: back ∧ c.case = case ∧ reach ≠ .nothing ∧
    ∀ later ∈ back, later.1.case = case → later.2 = .nothing

/-- An input and an expected tensor of a case belong together: one call staged both, no later one
staged anything for the case, and the expected tensor is the reference output of the input. -/
def Paired (trace : Trace) (case : String) (input expected : Tensor) : Prop :=
  ∃ c, trace.Last case c (.both expected) ∧ c.input = input ∧ c.reference = .ok expected

theorem Last.mem {c : ReferenceCall} {reach : Reach} (h : trace.Last case c reach) :
    (c, reach) ∈ trace := by
  obtain ⟨front, back, rfl, -⟩ := h
  exact List.mem_append_right front List.mem_cons_self

/-- A call marks the holdings of its own case only. -/
theorem mark_of_ne {c : ReferenceCall} (h : c.case ≠ case) (reach : Reach) (held : Holdings)
    (role : Role) : c.mark reach held case role = held case role := by
  have hother : ∀ r, ¬ (case = c.case ∧ role = r) := fun r hr => h hr.1.symm
  cases reach with
  | nothing => rfl
  | input => exact Holdings.put_of_ne _ _ (hother _)
  | both expected =>
    rw [ReferenceCall.mark, Holdings.put_of_ne _ _ (hother _), Holdings.put_of_ne _ _ (hother _)]

/-- Calls that stage nothing for a case leave what is held for it. -/
theorem holdings_quiet (h : ∀ r ∈ trace, r.1.case = case → r.2 = .nothing) (held : Holdings)
    (role : Role) : trace.holdings held case role = held case role := by
  induction trace generalizing held with
  | nil => rfl
  | cons r trace ih =>
    have hrest := ih (fun later hl => h later (List.mem_cons_of_mem r hl)) (r.1.mark r.2 held)
    have hfirst : r.1.mark r.2 held case role = held case role := by
      by_cases hc : r.1.case = case
      · rw [h r List.mem_cons_self hc]
        rfl
      · exact mark_of_ne hc _ _ _
    exact hrest.trans hfirst

/-- The last call that staged anything for a case determines what is held for it. -/
theorem Last.holdings {c : ReferenceCall} {reach : Reach} (h : trace.Last case c reach)
    (held : Holdings) : trace.holdings held case .input = some c.input ∧
      ∀ expected, reach = .both expected →
        trace.holdings held case .expected = some expected := by
  obtain ⟨front, back, rfl, rfl, hreach, hquiet⟩ := h
  have hlast : ∀ role, Trace.holdings (front ++ (c, reach) :: back) held c.case role =
      c.mark reach (Trace.holdings front held) c.case role := by
    intro role
    rw [Trace.holdings, List.foldl_append, List.foldl_cons]
    exact holdings_quiet hquiet _ role
  refine ⟨?_, fun expected he => ?_⟩
  · rw [hlast]
    cases reach with
    | nothing => exact absurd rfl hreach
    | input => exact Holdings.put_same _ _ _ _
    | both expected =>
      rw [ReferenceCall.mark, Holdings.put_of_ne _ _ fun hr => by cases hr.2]
      exact Holdings.put_same _ _ _ _
  · rw [hlast, he]
    exact Holdings.put_same _ _ _ _

/-- Some call is the last that staged anything for a case, or none staged anything for it. -/
theorem last_or_quiet (trace : Trace) (case : String) :
    (∃ c reach, trace.Last case c reach) ∨ ∀ r ∈ trace, r.1.case = case → r.2 = .nothing := by
  induction trace with
  | nil => exact Or.inr fun r hr => by cases hr
  | cons r trace ih =>
    rcases ih with ⟨c, reach, front, back, rfl, hc, hreach, hquiet⟩ | hquiet
    · exact Or.inl ⟨c, reach, r :: front, back, rfl, hc, hreach, hquiet⟩
    · by_cases hr : r.1.case = case ∧ r.2 ≠ .nothing
      · exact Or.inl ⟨r.1, r.2, [], trace, rfl, hr.1, hr.2, hquiet⟩
      · refine Or.inr fun later hl hc => ?_
        rcases List.mem_cons.mp hl with rfl | hl
        · exact Decidable.not_not.mp fun hn => hr ⟨hc, hn⟩
        · exact hquiet later hl hc

end Trace

/-! ## Runs -/

namespace ReferenceCall

variable {a : Area} {j : Journal} {fs : Files} {m : Manifest}

/-- The files after a call that was made on the files of a trace, and the trace with the call. -/
def step (a : Area) (j : Journal) (s : Files × Trace) (c : ReferenceCall) : Files × Trace :=
  (((c.perform a j).run s.1).2, s.2 ++ [(c, c.reach a j s.1)])

theorem step_files (a : Area) (j : Journal) (s : Files × Trace) (c : ReferenceCall) :
    (step a j s c).1 = ((c.perform a j).run s.1).2 := rfl

/-- The files after a run of calls, and how far each of them came. -/
def after (a : Area) (j : Journal) (fs : Files) (calls : List ReferenceCall) : Files × Trace :=
  calls.foldl (step a j) (fs, [])

/-- The shelves hold what the calls of a trace staged, and what they expected is what the models
made of the inputs. -/
structure Traced (a : Area) (s : Files × Trace) : Prop where
  /-- The shelves hold it. -/
  shelves : ∃ m, a.Shelves s.1 (s.2.holdings .none) m
  /-- It is the reference output. -/
  truthful : ∀ r ∈ s.2, ∀ t, r.2 = .both t → r.1.reference = .ok t

theorem step_traced (hj : j.Apart (location a.root)) {s : Files × Trace} (h : Traced a s)
    {c : ReferenceCall} (hc : c.Fits) : Traced a (step a j s c) := by
  obtain ⟨m, hm⟩ := h.shelves
  obtain ⟨⟨m', hm'⟩, href⟩ := perform_shelves (c := c) hj hm hc
  refine ⟨⟨m', ?_⟩, fun r hr t ht => ?_⟩
  · simp only [step, Trace.holdings, List.foldl_append]
    exact hm'
  · rcases List.mem_append.mp hr with hr | hr
    · exact h.truthful r hr t ht
    · obtain rfl := List.mem_singleton.mp hr
      exact href t ht

theorem foldl_traced (hj : j.Apart (location a.root)) (calls : List ReferenceCall)
    (hfits : ∀ c ∈ calls, c.Fits) {s : Files × Trace} (h : Traced a s) :
    Traced a (calls.foldl (step a j) s) := by
  induction calls generalizing s with
  | nil => exact h
  | cons c calls ih =>
    exact ih (fun later hl => hfits later (List.mem_cons_of_mem c hl))
      (step_traced hj h (hfits c List.mem_cons_self))

/-- A clearing that sweeps leaves empty shelves, whether its line goes to a journal or not. -/
theorem traced_of_clear {before : Files} (hj : j.Apart (location a.root))
    (hclear : (a.clear j).run before = (.ok (), fs)) (hsweeps : a.Sweeps before) :
    Traced a (fs, []) := by
  have hcloses := a.clear_closes j before
  have hleaves := hcloses.leaves hj
  have hok := hcloses.ok (congrArg Prod.fst hclear)
  rw [hclear] at hleaves
  rcases hreset : a.reset.run before with ⟨e | _, cleared⟩
  · rw [hreset] at hok
    cases hok
  · rw [hreset] at hleaves
    obtain ⟨m, hl, ht⟩ := (Area.reset_lists_iff hreset).mpr hsweeps
    have hshelves := Area.shelves_none (Area.reset_ok hreset).1 hl ht
    exact ⟨⟨m, hshelves.of_leaves hleaves⟩, fun r hr => by cases hr⟩

/-- After a clearing that sweeps and any run of calls, an input that can be loaded is that of the
last call that staged anything for its case, and an expected tensor that can be loaded as well
belongs to it exactly when that call staged both. -/
theorem paired_iff_last_completed (hj : j.Apart (location a.root)) {before : Files}
    (hclear : (a.clear j).run before = (.ok (), fs)) (hsweeps : a.Sweeps before)
    {calls : List ReferenceCall} (hfits : ∀ c ∈ calls, c.Fits) {case : String} {x y : Tensor}
    (hx : ((a.loadTensor case .input).run (after a j fs calls).1).1 = .ok x)
    (hy : ((a.loadTensor case .expected).run (after a j fs calls).1).1 = .ok y) :
    (∃ c reach, (after a j fs calls).2.Last case c reach ∧ c.input = x) ∧
      ((after a j fs calls).2.Paired case x y ↔
        ∃ c t, (after a j fs calls).2.Last case c (.both t)) := by
  have htraced : Traced a (after a j fs calls) :=
    foldl_traced hj calls hfits (traced_of_clear hj hclear hsweeps)
  obtain ⟨m, hm⟩ := htraced.shelves
  have hheldx := hm.held_of_load (Prod.ext hx rfl)
  have hheldy := hm.held_of_load (Prod.ext hy rfl)
  have hinput : ∀ c reach, (after a j fs calls).2.Last case c reach → c.input = x := by
    intro c reach hlast
    rw [(hlast.holdings .none).1] at hheldx
    exact Option.some.inj hheldx
  refine ⟨?_, ?_, ?_⟩
  · rcases (after a j fs calls).2.last_or_quiet case with ⟨c, reach, hlast⟩ | hquiet
    · exact ⟨c, reach, hlast, hinput c reach hlast⟩
    · rw [Trace.holdings_quiet hquiet] at hheldx
      cases hheldx
  · rintro ⟨c, hlast, -, -⟩
    exact ⟨c, y, hlast⟩
  · rintro ⟨c, t, hlast⟩
    rw [(hlast.holdings .none).2 t rfl] at hheldy
    obtain rfl := Option.some.inj hheldy
    exact ⟨c, hlast, hinput c _ hlast, htraced.truthful _ hlast.mem t rfl⟩

/-! ### A run that replaces an input alone -/

/-- A word as a tensor with four axes. -/
def word (w : UInt32) : Tensor := ⟨[1, 1, 1, 1], .f32 [⟨w⟩]⟩

/-- A model without operations on a single word. -/
def wordModel : Graph.Model := ⟨1, ⟨[1, 1, 1, 1], .f32⟩, []⟩

/-- A call for the model without operations. -/
def whole (w : UInt32) : ReferenceCall := ⟨Fixture.evaluator, "first", wordModel.source, word w⟩

/-- A call for the same case and a model that has no serialized form. -/
def broken (w : UInt32) : ReferenceCall :=
  ⟨Fixture.evaluator, "first", { wordModel.source with serialized := .error (.encode "none") },
    word w⟩

/-- A fresh area that was cleared. -/
def cleared : Files := ((StagingCall.plainArea.clear {}).run .empty).2

theorem cleared_reset : StagingCall.plainArea.reset.run .empty = (.ok (), cleared) := by
  obtain ⟨fs, hreset⟩ : ∃ fs, StagingCall.plainArea.reset.run .empty = (.ok (), fs) := ⟨_, rfl⟩
  rw [cleared, (StagingCall.plainArea.clear_closes {} .empty).silent rfl, hreset]

theorem clear_cleared : (StagingCall.plainArea.clear {}).run .empty = (.ok (), cleared) := by
  rw [(StagingCall.plainArea.clear_closes {} .empty).silent rfl, cleared_reset]

theorem sweeps_fresh : StagingCall.plainArea.Sweeps .empty := by
  refine ⟨rfl, Or.inr (Or.inl rfl), fun hp => ?_⟩
  exact absurd (onPath_isInitial (by decide) hp).length_le (by decide)

/-- Nothing is there when the area is cleared. -/
theorem cleared_stocked : StagingCall.plainArea.Stocked cleared .empty fun _ => none :=
  (Area.vacant_of_empty (show ".." ∉ pieces "w" by decide) cleared_reset).stocked (by rfl)

theorem admits_first (role : Role) :
    Files.admits "w" (StagingCall.plainArea.tensorFile "first" role) = .ok () := by
  cases role <;> rfl

theorem fits_word (w : UInt32) : (word w).shape.Fits := by
  change ∀ d ∈ [1, 1, 1, 1], d < wordLimit
  decide

theorem representable_word (w : UInt32) : (word w).Representable :=
  ⟨rfl, fits_word w, show (4 : Nat) < wordLimit by decide⟩

theorem fits_broken (w : UInt32) : (broken w).Fits := ⟨fits_word w, fun t h => by cases h⟩

theorem fits_whole {w : UInt32} (h : (whole w).reference = .ok (word w)) : (whole w).Fits := by
  refine ⟨fits_word w, fun t ht => ?_⟩
  rw [h] at ht
  cases ht
  exact fits_word w

/-- The model makes its input of an input. -/
theorem whole_reference : (whole 0x3f800000).reference = .ok (word 0x3f800000) :=
  ok_of_toOption (by decide +kernel)

section Words

variable {fs : Files} {m : Manifest} {content : String → Option Bytes}

/-- A call that breaks leaves what an earlier call expected. -/
theorem stocked_broken (h : StagingCall.plainArea.Stocked fs m content) (w : UInt32) :
    (broken w).reach StagingCall.plainArea {} fs = .input ∧ ∃ m' content',
      StagingCall.plainArea.Stocked (((broken w).perform StagingCall.plainArea {}).run fs).2 m'
        content' ∧
      StagingCall.plainArea.Staged "first" .input (word w) m' content' ∧
      ∀ t, StagingCall.plainArea.Staged "first" .expected t m content →
        StagingCall.plainArea.Staged "first" .expected t m' content' := by
  have hwritten : StagingCall.plainArea.fileBytes "first" .input (word w) =
      .ok (word w).elements.toBytes := rfl
  have hcase : Area.checkCase "first" = .ok () := rfl
  obtain ⟨hreach, hstocked⟩ := stocked_of_error h (j := {}) (c := broken w) rfl rfl hcase hwritten
    (admits_first .input) (fits_word w) rfl
  refine ⟨hreach, _, _, hstocked, Area.staged_record hwritten m content, fun t ht => ?_⟩
  refine Area.Staged.record (ht.update (fun hsame => ?_) _) (by simp [Area.entryOf])
  exact absurd (Area.tensorFile_inj hsame).2.1 (by decide)

/-- A call that does not break puts both in place. -/
theorem stocked_whole (h : StagingCall.plainArea.Stocked fs m content) :
    (whole 0x3f800000).reach StagingCall.plainArea {} fs = .both (word 0x3f800000) ∧
      ∃ m' content', StagingCall.plainArea.Stocked
        (((whole 0x3f800000).perform StagingCall.plainArea {}).run fs).2 m' content' ∧
      ∀ role, role ≠ .candidate →
        StagingCall.plainArea.Staged "first" role (word 0x3f800000) m' content' := by
  have hwritten : ∀ role, StagingCall.plainArea.fileBytes "first" role (word 0x3f800000) =
      .ok (word 0x3f800000).elements.toBytes := fun _ => rfl
  have hcase : Area.checkCase "first" = .ok () := rfl
  obtain ⟨hreach, hstocked⟩ := stocked_of_ok h (j := {}) (c := whole 0x3f800000) rfl rfl hcase
    (hwritten .input) admits_first (fits_whole whole_reference) whole_reference (hwritten .expected)
  refine ⟨hreach, _, _, hstocked, fun role hrole => ?_⟩
  have hexpected := Area.staged_record (hwritten .expected)
  have hinput := Area.staged_record (hwritten .input) m content
  cases role with
  | input =>
    refine Area.Staged.record (hinput.update (fun hsame => ?_) _) (by simp [Area.entryOf])
    exact absurd (Area.tensorFile_inj hsame).2.1 (by decide)
  | expected => exact hexpected _ _
  | candidate => exact absurd rfl hrole

/-- What is staged for the case can be loaded. -/
theorem load_word (h : StagingCall.plainArea.Stocked fs m content) {role : Role} {w : UInt32}
    (ht : StagingCall.plainArea.Staged "first" role (word w) m content) :
    ((StagingCall.plainArea.loadTensor "first" role).run fs).1 = .ok (word w) :=
  congrArg Prod.fst (h.loadTensor rfl (admits_first role) ht (representable_word w))

end Words

/-- A call that broke staged an input alone. -/
def halfway : Files × Trace := after StagingCall.plainArea {} cleared [broken 0x40000000]

/-- After that the case was staged as a whole. -/
def restaged : Files × Trace := step StagingCall.plainArea {} halfway (whole 0x3f800000)

theorem restaged_eq : restaged =
    after StagingCall.plainArea {} cleared [broken 0x40000000, whole 0x3f800000] := by
  rw [restaged, halfway, after, after, List.foldl_cons, List.foldl_cons, List.foldl_cons,
    List.foldl_nil, List.foldl_nil]

/-- When the case is staged again as a whole, input and expected tensor belong together. -/
theorem restaged_paired : ∃ x y,
    ((StagingCall.plainArea.loadTensor "first" .input).run restaged.1).1 = .ok x ∧
    ((StagingCall.plainArea.loadTensor "first" .expected).run restaged.1).1 = .ok y ∧
    restaged.2.Paired "first" x y := by
  obtain ⟨-, m, content, hhalfway, -⟩ := stocked_broken cleared_stocked 0x40000000
  obtain ⟨hreach, m', content', hrestaged, hstaged⟩ := stocked_whole hhalfway
  have hfiles : halfway.1 =
      (((broken 0x40000000).perform StagingCall.plainArea {}).run cleared).2 := by
    rw [halfway, after, List.foldl_cons, List.foldl_nil, step_files]
  rw [← hfiles] at hreach hrestaged
  rw [← step_files, ← restaged] at hrestaged
  have hx := load_word hrestaged (hstaged .input (by decide))
  have hy := load_word hrestaged (hstaged .expected (by decide))
  have hfits : ∀ c ∈ [broken 0x40000000, whole 0x3f800000], c.Fits := by
    intro c hc
    simp only [List.mem_cons, List.not_mem_nil, or_false] at hc
    rcases hc with rfl | rfl
    · exact fits_broken _
    · exact fits_whole whole_reference
  have hlast : restaged.2.Last "first" (whole 0x3f800000) (.both (word 0x3f800000)) := by
    refine ⟨halfway.2, [], ?_, rfl, nofun, fun later hl => by cases hl⟩
    rw [restaged, step, hreach]
  refine ⟨_, _, hx, hy, ?_⟩
  rw [restaged_eq] at hx hy hlast ⊢
  exact (paired_iff_last_completed (Journal.apart_of_silent rfl _) clear_cleared sweeps_fresh hfits
    hx hy).2.mpr ⟨_, _, hlast⟩

/-- An input was staged as a whole, and then another for the same case by a call that broke. -/
def replaced : Files × Trace :=
  after StagingCall.plainArea {} cleared [whole 0x3f800000, broken 0x40000000]

/-- A call whose model has no serialized form replaces the input, and what an earlier call expected
stays: both are loaded and do not belong together. -/
theorem input_replaced_alone : ∃ x y,
    ((StagingCall.plainArea.loadTensor "first" .input).run replaced.1).1 = .ok x ∧
    ((StagingCall.plainArea.loadTensor "first" .expected).run replaced.1).1 = .ok y ∧
    ¬ replaced.2.Paired "first" x y := by
  obtain ⟨-, m, content, hwhole, hstaged⟩ := stocked_whole cleared_stocked
  obtain ⟨-, m', content', hreplaced, hinput, hkeeps⟩ := stocked_broken hwhole 0x40000000
  have hexpected := hkeeps _ (hstaged .expected (by decide))
  have hfiles : replaced.1 = (((broken 0x40000000).perform StagingCall.plainArea {}).run
      (((whole 0x3f800000).perform StagingCall.plainArea {}).run cleared).2).2 := by
    rw [replaced, after, List.foldl_cons, List.foldl_cons, List.foldl_nil, step_files, step_files]
  rw [← hfiles] at hreplaced
  refine ⟨_, _, load_word hreplaced hinput, load_word hreplaced hexpected, ?_⟩
  rintro ⟨c, hlast, hgiven, href⟩
  have hcall : c ∈ replaced.2.map Prod.fst := List.mem_map_of_mem hlast.mem
  change c ∈ [whole 0x3f800000, broken 0x40000000] at hcall
  simp only [List.mem_cons, List.not_mem_nil, or_false] at hcall
  rcases hcall with rfl | rfl
  · exact absurd hgiven (by decide)
  · cases href

end ReferenceCall

end NetTrial
