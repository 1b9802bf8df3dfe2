import NetTrial.Proofs.AxisOrders
import NetTrial.Proofs.Evaluations
import NetTrial.Proofs.ModelDocument
import NetTrial.Trial.Reference
/-!
# The reference in either order of axes

Whether the elements of a tensor can be moved is decided by its shape and not by the permutation,
so an output that was left in the order of the interpreter can also be moved out of it. Therefore
it does not matter in which order the reference is asked for: the answers are one tensor in two
orders, or the same failure. An input that is accepted reaches the interpreter as the tensor that
the model takes.
-/

namespace NetTrial

open Number

/-! ## Moving elements -/

theorem Shape.permuted_eq {shape : Shape} {perm : List Nat}
    (hperm : perm.Perm (List.range shape.length)) :
    shape.permuted perm = .ok (rearrange perm shape) := by
  rw [permuted, validatePermutation_eq_ok_iff.mpr hperm]
  rfl

namespace Tensor

variable {t : Tensor} {perm : List Nat}

/-- What has to hold of a tensor before its elements are moved, by whatever permutation. -/
def checkMove (t : Tensor) : Except ShapeError Unit := do
  let count ← t.shape.elementCount
  if t.length = count then
    let _ ← t.shape.strides
    return ()
  else .error (.elementCount count t.length)

/-- Moving the elements fails as the check does and otherwise rearranges the tensor. -/
theorem permuteAxes_eq (hperm : perm.Perm (List.range t.shape.length)) :
    t.permuteAxes perm = t.checkMove.map fun _ => t.rearranged perm := by
  obtain ⟨shape, elements⟩ := t
  have hvalid : Shape.permuted shape perm = .ok (Shape.rearrange perm shape) :=
    Shape.permuted_eq hperm
  have hmoves : ∀ {α : Type} [Inhabited α] (values : List α),
      values.length = (Tensor.mk shape elements).length →
      Shape.permuteValues values shape perm = (checkMove ⟨shape, elements⟩).map fun _ =>
        (Shape.rearrange perm shape, Shape.movedValues values shape perm) := by
    intro α _ values hvalues
    rw [Shape.permuteValues, hvalid, checkMove, ← hvalues]
    simp only [bind, Except.bind]
    cases shape.elementCount with
    | error cause => rfl
    | ok count =>
      by_cases hcount : values.length = count
      · subst hcount
        simp only [if_true]
        cases hstrides : shape.strides with
        | error cause => rfl
        | ok ss =>
          obtain rfl := (Shape.strides_gives shape).of_ok hstrides
          rfl
      · simp only [if_neg hcount]
        rfl
  cases elements with
  | f32 values =>
    rw [Tensor.permuteAxes]
    simp only [hmoves values rfl]
    cases checkMove _ <;> rfl
  | u8 values =>
    rw [Tensor.permuteAxes]
    simp only [hmoves values rfl]
    cases checkMove _ <;> rfl

/-- The axes are moved by permutations only. -/
theorem permuteAxes_gives (t : Tensor) (perm : List Nat) :
    Gives (t.permuteAxes perm) fun _ => perm.Perm (List.range t.shape.length) := by
  obtain ⟨shape, elements⟩ := t
  rw [permuteAxes]
  cases elements with
  | f32 values =>
    refine .bind ((Shape.permuteValues_gives values shape perm).mono ?_)
    rintro _ ⟨hperm, -⟩
    exact gives_ok (Shape.isPermutation_iff.mp hperm)
  | u8 values =>
    refine .bind ((Shape.permuteValues_gives values shape perm).mono ?_)
    rintro _ ⟨hperm, -⟩
    exact gives_ok (Shape.isPermutation_iff.mp hperm)

theorem permuteAxes_eq_ok {moved : Tensor} (h : t.permuteAxes perm = .ok moved) :
    perm.Perm (List.range t.shape.length) ∧ moved = t.rearranged perm := by
  have hperm := (permuteAxes_gives t perm).of_ok h
  rw [permuteAxes_eq hperm] at h
  obtain ⟨_, -, h⟩ := bind_eq_ok_iff.mp h
  exact ⟨hperm, (Except.ok.inj h).symm⟩

theorem elementType_rearranged (t : Tensor) (perm : List Nat) :
    (t.rearranged perm).elementType = t.elementType := by
  obtain ⟨shape, elements⟩ := t
  cases elements <;> rfl

/-- A tensor whose elements can be moved has as many as its shape asks for. -/
theorem sized_of_checkMove (h : t.checkMove = .ok ()) : t.Sized := by
  rw [checkMove] at h
  obtain ⟨count, hcount, h⟩ := bind_eq_ok_iff.mp h
  obtain ⟨hlength, -⟩ := admit_eq_ok_iff.mp h
  obtain ⟨hsize, hbound⟩ := Shape.elementCount_eq_ok (hlength ▸ hcount)
  exact ⟨hsize, hbound⟩

theorem Filled.checkMove (h : t.Filled) : t.checkMove = .ok () := by
  have hkept := h.permuteAxes (List.Perm.refl _)
  rw [permuteAxes_eq (List.Perm.refl _)] at hkept
  obtain ⟨_, hcheck, -⟩ := bind_eq_ok_iff.mp hkept
  exact hcheck

/-- From one axis order into another by way of a third is the way without it. -/
theorem permutationTo_via (source middle target : AxisOrder) :
    Shape.rearrange (middle.permutationTo target) (source.permutationTo middle) =
      source.permutationTo target := by
  cases source <;> cases middle <;> cases target <;> rfl

theorem permutationTo_perm (source target : AxisOrder) :
    (source.permutationTo target).Perm (List.range 4) := (permutationTo_back source target).1

theorem permutationTo_self (order : AxisOrder) : order.permutationTo order = List.range 4 := by
  cases order <;> rfl

theorem convert_eq (hrank : t.shape.length = 4) (source target : AxisOrder) :
    t.convert source target =
      t.checkMove.map fun _ => t.rearranged (source.permutationTo target) := by
  rw [convert, permuteAxes_eq (hrank ▸ permutationTo_perm source target)]

/-- In the order that it is in a tensor stays as it is, if it can be moved at all. -/
theorem convert_self (hrank : t.shape.length = 4) (order : AxisOrder) :
    t.convert order order = t.checkMove.map fun _ => t := by
  rw [convert_eq hrank, permutationTo_self, ← hrank]
  cases hcheck : t.checkMove with
  | error cause => rfl
  | ok => exact congrArg Except.ok (sized_of_checkMove hcheck).rearranged_range

theorem Filled.convert (h : t.Filled) (hrank : t.shape.length = 4) (source target : AxisOrder) :
    t.convert source target = .ok (t.rearranged (source.permutationTo target)) := by
  rw [convert_eq hrank, h.checkMove]
  rfl

/-- A tensor that was taken into another order is taken on into a third as it is from the first. -/
theorem Filled.convert_rearranged (h : t.Filled) (hrank : t.shape.length = 4)
    (source middle target : AxisOrder) :
    (t.rearranged (source.permutationTo middle)).convert middle target =
      t.convert source target := by
  have hthere : (source.permutationTo middle).Perm (List.range t.shape.length) :=
    hrank ▸ permutationTo_perm source middle
  have hon : (middle.permutationTo target).Perm (List.range t.shape.length) :=
    hrank ▸ permutationTo_perm middle target
  rw [(h.rearranged hthere).convert ((rank_rearranged hthere).trans hrank),
    h.rearranged_rearranged hthere hon, permutationTo_via, h.convert hrank]

end Tensor

/-! ## Answers -/

namespace Evaluator

variable {i : Interpreter} {order : AxisOrder} {x : Tensor} {serialized : Text.Bytes}

/-- The answer with an output of the interpreter: it is brought into the order of the runtime
when it has four axes. -/
def answer (e : Evaluator) (output : Tensor) : Except Failure Tensor :=
  if output.shape.length ≠ 4 then .ok output
  else
    (output.convert e.interpreter.order e.runtimeOrder).mapError fun cause =>
      .reference (.outputOrder cause)

theorem evaluate_of_convert (e : Evaluator) {moved : Tensor}
    (h : x.convert e.runtimeOrder e.interpreter.order = .ok moved) :
    e.evaluate serialized x =
      ((e.interpreter.invoke serialized moved).mapError fun cause =>
        .reference (.interpreter e.interpreter.name cause)).bind e.answer := by
  rw [evaluate, h]
  rfl

/-- The interpreter is blamed exactly when it refuses what it is given. -/
theorem evaluate_eq_interpreter_iff (e : Evaluator) (serialized : Text.Bytes)
    (cause : ModelError) {moved : Tensor}
    (h : x.convert e.runtimeOrder e.interpreter.order = .ok moved) :
    e.evaluate serialized x = .error (.reference (.interpreter e.interpreter.name cause)) ↔
      e.interpreter.invoke serialized moved = .error cause := by
  rw [evaluate_of_convert e h]
  cases e.interpreter.invoke serialized moved with
  | error cause => simp [Except.mapError, Except.bind]
  | ok output =>
    change e.answer output = _ ↔ _
    refine ⟨fun hanswer => ?_, nofun⟩
    rw [answer] at hanswer
    by_cases hrank : output.shape.length = 4
    · rw [if_neg (not_not.mpr hrank)] at hanswer
      cases hback : output.convert e.interpreter.order e.runtimeOrder <;>
        rw [hback] at hanswer <;> cases hanswer
    · rw [if_pos hrank] at hanswer
      cases hanswer

/-- In the order of the interpreter an output is the answer as it is, if it can be moved at all. -/
theorem answer_own (i : Interpreter) (output : Tensor) :
    (Evaluator.mk i i.order).answer output =
      if output.shape.length ≠ 4 then .ok output
      else (output.checkMove.map fun _ => output).mapError fun cause =>
        .reference (.outputOrder cause) := by
  rw [answer]
  split_ifs with hrank
  · rfl
  · rw [Tensor.convert_self (not_not.mp hrank)]

/-- An output that is the answer in the order of the interpreter can be brought into any order. -/
theorem answer_eq_bind (i : Interpreter) (order : AxisOrder) (output : Tensor) :
    (Evaluator.mk i order).answer output =
      ((Evaluator.mk i i.order).answer output).bind (Evaluator.mk i order).answer := by
  rw [answer_own]
  by_cases hrank : output.shape.length = 4
  · rw [if_neg (not_not.mpr hrank)]
    cases hcheck : output.checkMove with
    | error cause =>
      rw [answer, if_neg (not_not.mpr hrank), Tensor.convert_eq hrank, hcheck]
      rfl
    | ok => rfl
  · rw [if_pos hrank]
    rfl

/-- An answer in the order of the interpreter can be moved when it has four axes. -/
theorem checkMove_of_evaluate {out : Tensor}
    (h : (Evaluator.mk i i.order).evaluate serialized x = .ok out)
    (hrank : out.shape.length = 4) : out.checkMove = .ok () := by
  cases hthere : x.convert i.order i.order with
  | error cause =>
    rw [evaluate, hthere] at h
    cases h
  | ok moved =>
    rw [evaluate_of_convert ⟨i, i.order⟩ hthere] at h
    cases houtput : i.invoke serialized moved with
    | error cause =>
      rw [houtput] at h
      cases h
    | ok output =>
      rw [houtput] at h
      change (Evaluator.mk i i.order).answer output = _ at h
      -- The identity moves nothing, but it is checked like any other permutation.
      rw [answer_own] at h
      by_cases hfour : output.shape.length = 4
      · rw [if_neg (not_not.mpr hfour)] at h
        cases hcheck : output.checkMove with
        | error cause =>
          rw [hcheck] at h
          cases h
        | ok =>
          rw [hcheck] at h
          cases h
          exact hcheck
      · rw [if_pos hfour] at h
        cases h
        exact absurd hrank hfour

/-- An answer is the answer in the order of the interpreter brought into the order of the
runtime. -/
theorem evaluate_eq_bind (h : x.Filled) (hrank : x.shape.length = 4) (i : Interpreter)
    (order : AxisOrder) (serialized : Text.Bytes) :
    (Evaluator.mk i order).evaluate serialized x =
      ((Evaluator.mk i i.order).evaluate serialized
        (x.rearranged (order.permutationTo i.order))).bind (Evaluator.mk i order).answer := by
  have hthere : x.convert order i.order = .ok (x.rearranged (order.permutationTo i.order)) :=
    h.convert hrank order i.order
  have hstays : (x.rearranged (order.permutationTo i.order)).convert i.order i.order =
      .ok (x.rearranged (order.permutationTo i.order)) := by
    rw [h.convert_rearranged hrank, hthere]
  rw [evaluate_of_convert ⟨i, order⟩ hthere, evaluate_of_convert ⟨i, i.order⟩ hstays]
  cases i.invoke serialized (x.rearranged (order.permutationTo i.order)) with
  | error cause => rfl
  | ok output => exact answer_eq_bind i order output

/-- An answer in the order of the interpreter is the answer in any other, brought into it when it
has four axes. -/
theorem evaluate_of_own (h : x.Filled) (hrank : x.shape.length = 4) {out : Tensor}
    (hout : (Evaluator.mk i i.order).evaluate serialized
      (x.rearranged (order.permutationTo i.order)) = .ok out) :
    (out.shape.length = 4 → ∃ back, out.convert i.order order = .ok back ∧
      (Evaluator.mk i order).evaluate serialized x = .ok back) ∧
    (out.shape.length ≠ 4 → (Evaluator.mk i order).evaluate serialized x = .ok out) := by
  have hanswer : (Evaluator.mk i order).evaluate serialized x =
      (Evaluator.mk i order).answer out := by
    rw [evaluate_eq_bind h hrank, hout]
    rfl
  rw [hanswer, answer]
  refine ⟨fun hfour => ?_, fun hother => if_pos hother⟩
  have hback : out.convert i.order order =
      .ok (out.rearranged (i.order.permutationTo order)) := by
    rw [Tensor.convert_eq hfour, checkMove_of_evaluate hout hfour]
    rfl
  exact ⟨_, hback, by rw [if_neg (not_not.mpr hfour), hback]; rfl⟩

/-- There is no answer in one order where there is one in another. -/
theorem evaluate_eq_error_iff (h : x.Filled) (hrank : x.shape.length = 4) (failure : Failure) :
    (Evaluator.mk i order).evaluate serialized x = .error failure ↔
      (Evaluator.mk i i.order).evaluate serialized
        (x.rearranged (order.permutationTo i.order)) = .error failure := by
  cases hown : (Evaluator.mk i i.order).evaluate serialized
      (x.rearranged (order.permutationTo i.order)) with
  | error cause =>
    rw [evaluate_eq_bind h hrank, hown]
    rfl
  | ok out =>
    obtain ⟨hfour, hother⟩ := evaluate_of_own h hrank hown
    refine ⟨fun hfailed => ?_, nofun⟩
    by_cases hfours : out.shape.length = 4
    · obtain ⟨back, -, hback⟩ := hfour hfours
      cases hback.symm.trans hfailed
    · cases (hother hfours).symm.trans hfailed

/-- In the order of the runtime a tensor with four axes that can be brought into the order of the
interpreter and back is its own answer, when the interpreter gives what it is given. -/
theorem evaluate_echo (h : x.Filled) (hrank : x.shape.length = 4)
    (hecho : ∀ t, i.invoke serialized t = .ok t) (order : AxisOrder) :
    (Evaluator.mk i order).evaluate serialized x = .ok x := by
  have hthere := h.convert hrank order i.order
  have hperm : (order.permutationTo i.order).Perm (List.range x.shape.length) :=
    hrank ▸ Tensor.permutationTo_perm order i.order
  have hrank' := (Tensor.rank_rearranged hperm).trans hrank
  rw [evaluate_of_convert ⟨i, order⟩ hthere, hecho]
  change (Evaluator.mk i order).answer _ = _
  rw [answer, if_neg (not_not.mpr hrank'), h.convert_rearranged hrank, Tensor.convert_self hrank,
    h.checkMove]
  rfl

end Evaluator

/-! ## Signatures -/

namespace Graph

/-- No operation blames the input of the model. -/
theorem Op.apply_ne_signature (op : Op) (index : Nat) (a : Activations)
    (expected actual : Signature) : op.apply index a ≠ .error (.signature expected actual) := by
  intro h
  cases op with
  | conv c =>
    rw [apply] at h
    cases hrun : c.run false a.shape a.values <;> rw [hrun] at h <;> cases h
  | depthwise c =>
    rw [apply] at h
    cases hrun : c.run true a.shape a.values <;> rw [hrun] at h <;> cases h
  | addBias bias =>
    rw [apply] at h
    by_cases hlength : bias.length = a.shape.getLast?.getD 1
    · cases (if_pos hlength).symm.trans h
    · cases (if_neg hlength).symm.trans h
  | activate kind => cases h
  | reshape target =>
    rw [apply] at h
    cases hcount : target.elementCount with
    | error cause =>
      rw [hcount] at h
      cases h
    | ok count =>
      rw [hcount] at h
      simp only [Except.mapError, bind, Except.bind] at h
      split_ifs at h <;> cases h

theorem applyAll_ne_signature (ops : List Op) (index : Nat) (a : Activations)
    (expected actual : Signature) :
    applyAll index ops a ≠ .error (.signature expected actual) := by
  induction ops generalizing index a with
  | nil => exact nofun
  | cons op ops ih =>
    rw [applyAll]
    cases hnext : op.apply index a with
    | error cause =>
      intro h
      cases h
      exact op.apply_ne_signature index a _ _ hnext
    | ok b => exact ih (index + 1) b

/-- The input is blamed exactly when it is not of the signature of the model. -/
theorem evaluate_eq_signature_iff {m : Model} {t : Tensor} {expected actual : Signature} :
    m.evaluate t = .error (.signature expected actual) ↔
      Signature.ofTensor t ≠ m.input ∧ expected = m.input ∧ actual = .ofTensor t := by
  rw [Model.evaluate]
  by_cases hsignature : Signature.ofTensor t = m.input
  · rw [if_neg (not_not.mpr hsignature)]
    refine ⟨fun h => ?_, fun h => absurd hsignature h.1⟩
    change (applyAll 0 m.ops (.ofTensor t)).bind _ = _ at h
    cases hrun : applyAll 0 m.ops (.ofTensor t) with
    | error cause =>
      rw [hrun] at h
      cases h
      exact absurd hrun (applyAll_ne_signature m.ops 0 _ expected actual)
    | ok out =>
      rw [hrun] at h
      simp only [Except.bind] at h
      cases hbuilt : Tensor.ofElements out.shape (.f32 out.values) <;> rw [hbuilt] at h <;> cases h
  · rw [if_pos hsignature]
    constructor
    · intro h
      cases h
      exact ⟨hsignature, rfl, rfl⟩
    · rintro ⟨-, rfl, rfl⟩
      rfl

end Graph

/-- The interpreter of graph models evaluates the model that it reads. -/
theorem Interpreter.graph_invoke {m : Graph.Model} {serialized : Text.Bytes}
    (hm : Graph.Model.ofBytes serialized = .ok m) (t : Tensor) :
    Interpreter.graph.invoke serialized t = m.evaluate t := by
  change (Graph.Model.ofBytes serialized).bind _ = _
  rw [hm]
  rfl

namespace Evaluator

variable {x : Tensor} {order : AxisOrder} {m : Graph.Model}

theorem evaluate_graph {moved : Tensor} {serialized : Text.Bytes}
    (hm : Graph.Model.ofBytes serialized = .ok m) (h : x.convert order .nhwc = .ok moved) :
    (Evaluator.mk .graph order).evaluate serialized x =
      ((m.evaluate moved).mapError fun cause =>
        .reference (.interpreter Interpreter.graph.name cause)).bind
          (Evaluator.mk .graph order).answer := by
  rw [← Interpreter.graph_invoke hm]
  exact evaluate_of_convert ⟨.graph, order⟩ h

/-- An input that can be moved is accepted when the interpreter is given the signature of the
model. -/
theorem accepts_iff_of_convert (e : Evaluator) (model : Signature) {moved : Tensor}
    (h : x.convert e.runtimeOrder e.interpreter.order = .ok moved) :
    e.accepts model x = true ↔ Signature.ofTensor moved = model := by
  obtain ⟨hperm, rfl⟩ := Tensor.permuteAxes_eq_ok h
  obtain ⟨shape, kind⟩ := model
  rw [accepts, Shape.permuted_eq hperm, Signature.ofTensor, Tensor.elementType_rearranged]
  simp [Tensor.rearranged]

/-- The interpreter of graph models blames an input exactly when it would not have been
accepted. -/
theorem evaluate_eq_signature_iff (hm : Graph.Model.ofBytes m.bytes = .ok m)
    {expected actual : Signature} {moved : Tensor} (h : x.convert order .nhwc = .ok moved) :
    (Evaluator.mk .graph order).evaluate m.bytes x =
        .error (.reference (.interpreter Interpreter.graph.name (.signature expected actual))) ↔
      (Evaluator.mk .graph order).accepts m.source.signature x = false ∧ expected = m.input ∧
        actual = .ofTensor moved := by
  have haccepts := accepts_iff_of_convert ⟨.graph, order⟩ m.input h
  refine (evaluate_eq_interpreter_iff ⟨.graph, order⟩ m.bytes _ h).trans ?_
  change Interpreter.graph.invoke m.bytes moved = _ ↔ _
  rw [Interpreter.graph_invoke hm, Graph.evaluate_eq_signature_iff, ← Bool.not_eq_true]
  exact and_congr_left fun _ => not_congr haccepts.symm

/-- The reference does not depend on the order of axes that it is asked in. For an input with four
axes and its copy in the order of the interpreter it fails with one cause, or it gives one output:
with four axes in the order asked for, and with another number of them as it is. An interpreter
that gives its input back gives back what was put in, and an input that is accepted in either
order is not of another signature for the interpreter. -/
theorem evaluate_in_either_order (hm : Graph.Model.ofBytes m.bytes = .ok m)
    (hbuilt : Tensor.ofElements x.shape x.elements = .ok x) (hrank : x.shape.length = 4)
    (hdims : ∀ d ∈ x.shape, 1 ≤ d) :
    ∃ moved, x.convert .nchw .nhwc = .ok moved ∧
      (∀ failure, (Evaluator.mk .graph .nchw).evaluate m.bytes x = .error failure ↔
        (Evaluator.mk .graph .nhwc).evaluate m.bytes moved = .error failure) ∧
      (∀ out, (Evaluator.mk .graph .nhwc).evaluate m.bytes moved = .ok out →
        (out.shape.length = 4 → ∃ back, out.convert .nhwc .nchw = .ok back ∧
          (Evaluator.mk .graph .nchw).evaluate m.bytes x = .ok back) ∧
        (out.shape.length ≠ 4 → (Evaluator.mk .graph .nchw).evaluate m.bytes x = .ok out)) ∧
      (∀ i : Interpreter, (∀ t, i.invoke m.bytes t = .ok t) → ∀ order, ∀ t ∈ [x, moved],
        (Evaluator.mk i order).evaluate m.bytes t = .ok t) ∧
      ∀ order (y : Tensor), (Evaluator.mk .graph order).accepts m.source.signature y = true →
        ∀ expected actual, (Evaluator.mk .graph order).evaluate m.bytes y ≠ .error
          (.reference (.interpreter Interpreter.graph.name (.signature expected actual))) := by
  have h : x.Filled := Tensor.filled_of_ofElements hbuilt hdims
  have hperm : (AxisOrder.nchw.permutationTo .nhwc).Perm (List.range x.shape.length) :=
    hrank ▸ Tensor.permutationTo_perm .nchw .nhwc
  refine ⟨_, h.convert hrank .nchw .nhwc, fun failure => ?_, fun out hout => ?_, ?_, ?_⟩
  · exact evaluate_eq_error_iff (i := .graph) h hrank failure
  · exact evaluate_of_own (i := .graph) h hrank hout
  · intro i hecho order t ht
    rcases List.mem_pair.mp ht with rfl | rfl
    · exact evaluate_echo h hrank hecho order
    · have hmoved := h.rearranged hperm
      exact evaluate_echo hmoved ((Tensor.rank_rearranged hperm).trans hrank) hecho order
  · intro order y haccepts expected actual hblamed
    cases hthere : y.convert order .nhwc with
    | error cause =>
      change Except.bind (Except.mapError _ (y.convert order .nhwc)) _ = _ at hblamed
      rw [hthere] at hblamed
      cases hblamed
    | ok moved =>
      have hrefused := ((evaluate_eq_signature_iff hm hthere).mp hblamed).1
      rw [haccepts] at hrefused
      cases hrefused

/-- A model that adds six to the first of two channels. -/
def raising : Graph.Model := ⟨1, ⟨[1, 1, 3, 2], .f32⟩, [.addBias [.six, .zero]]⟩

/-- Six numbers, channel by channel. -/
def planes : Tensor := ⟨[1, 2, 1, 3], .f32 [.zero, .zero, .zero, .six, .zero, .six]⟩

theorem raising_in_either_order : Graph.Model.ofBytes raising.bytes = .ok raising ∧
    Tensor.ofElements planes.shape planes.elements = .ok planes ∧
    planes.shape.length = 4 ∧ (∀ d ∈ planes.shape, 1 ≤ d) ∧
    planes.convert .nchw .nhwc =
      .ok ⟨[1, 1, 3, 2], .f32 [.zero, .six, .zero, .zero, .zero, .six]⟩ ∧
    (Evaluator.mk .graph .nhwc).evaluate raising.bytes
        ⟨[1, 1, 3, 2], .f32 [.zero, .six, .zero, .zero, .zero, .six]⟩ =
      .ok ⟨[1, 1, 3, 2], .f32 [.six, .six, .six, .zero, .six, .six]⟩ ∧
    (Evaluator.mk .graph .nchw).evaluate raising.bytes planes =
      .ok ⟨[1, 2, 1, 3], .f32 [.six, .six, .six, .six, .zero, .six]⟩ ∧
    (Evaluator.mk ⟨"echo", .nhwc, fun _ t => .ok t⟩ .nchw).evaluate raising.bytes planes =
      .ok planes := by
  have hfits : raising.Fits :=
    { version := by decide
      input := by simp [raising, Shape.Fits, wordLimit]
      ops := by simp [raising, Graph.Op.Fits] }
  have hm : Graph.Model.ofBytes raising.bytes = .ok raising :=
    (Graph.Model.ofBytes_bytes_iff hfits raising).mpr ⟨rfl, by decide⟩
  have hbuilt : Tensor.ofElements planes.shape planes.elements = .ok planes := rfl
  have hmoved : planes.convert .nchw .nhwc =
      .ok ⟨[1, 1, 3, 2], .f32 [.zero, .six, .zero, .zero, .zero, .six]⟩ := rfl
  have hown : (Evaluator.mk .graph .nhwc).evaluate raising.bytes
      ⟨[1, 1, 3, 2], .f32 [.zero, .six, .zero, .zero, .zero, .six]⟩ =
      .ok ⟨[1, 1, 3, 2], .f32 [.six, .six, .six, .zero, .six, .six]⟩ := by
    rw [evaluate_graph hm rfl]
    rfl
  obtain ⟨moved, hthere, -, hanswer, hecho, -⟩ :=
    evaluate_in_either_order hm hbuilt rfl (by decide)
  cases hmoved.symm.trans hthere
  obtain ⟨back, hback, hnchw⟩ := (hanswer _ hown).1 rfl
  have hreturn : (⟨[1, 1, 3, 2], .f32 [.six, .six, .six, .zero, .six, .six]⟩ : Tensor).convert
      .nhwc .nchw = .ok ⟨[1, 2, 1, 3], .f32 [.six, .six, .six, .six, .zero, .six]⟩ := rfl
  cases hreturn.symm.trans hback
  exact ⟨hm, hbuilt, rfl, by decide, hmoved, hown, hnchw,
    hecho ⟨"echo", .nhwc, fun _ t => .ok t⟩ (fun _ => rfl) .nchw _ (List.mem_pair.mpr (.inl rfl))⟩

end Evaluator

end NetTrial
