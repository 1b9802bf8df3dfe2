import NetTrial.Graph.Evaluation
import NetTrial.Proofs.Convolutions
/-!
# Evaluations decided by shapes

Each operation takes some shapes and gives a shape for each of them. Whether it applies, and to
what shape, does not depend on the values as long as they are as many as their shape asks for, and
every operation gives as many values as the shape it gives asks for. So the shapes alone decide how
an evaluation ends: with a tensor, at the first operation that does not take the shape that reaches
it, or at a target shape whose size does not fit a word.
-/

namespace NetTrial.Graph

open Number

variable {op : Op} {ops : List Op} {index : Nat} {shape target last : Shape} {a : Activations}

/-! ## What operations ask of shapes -/

/-- Which shapes an operation takes, and what shape it gives for each. -/
inductive Op.Takes : Op → Shape → Shape → Prop
  /-- A convolution that meets its conditions. -/
  | conv {c : Convolution} {shape : Shape} {p : Convolution.Plan}
      (h : c.Accepts false shape p) : Op.Takes (.conv c) shape p.shape
  /-- The same for each channel on its own. -/
  | depthwise {c : Convolution} {shape : Shape} {p : Convolution.Plan}
      (h : c.Accepts true shape p) : Op.Takes (.depthwise c) shape p.shape
  /-- A number for each index of the last axis, or one number where there are no axes. -/
  | addBias {bias : List Single} {shape : Shape}
      (h : bias.length = shape.getLast?.getD 1) : Op.Takes (.addBias bias) shape shape
  /-- An activation applies to every shape. -/
  | activate {kind : Activation} {shape : Shape} : Op.Takes (.activate kind) shape shape
  /-- A target that asks for as many elements. -/
  | reshape {target shape : Shape}
      (h : target.elementCount = .ok (Shape.size shape)) : Op.Takes (.reshape target) shape target

/-- Whether an operation asks for a shape whose size does not fit a word. -/
def Op.Overflows (op : Op) : Prop :=
  ∃ target, op = .reshape target ∧ target.elementCount = .error .overflow

/-- A shape passes through operations that each take what reaches them. -/
inductive Passes : List Op → Shape → Shape → Prop
  /-- No operation. -/
  | nil (shape : Shape) : Passes [] shape shape
  /-- An operation and those behind it. -/
  | cons {op : Op} {ops : List Op} {shape next last : Shape} (h : op.Takes shape next)
      (hrest : Passes ops next last) : Passes (op :: ops) shape last

/-- How a shape fares in operations of which the first has the given index. -/
inductive Decided (index : Nat) (ops : List Op) (shape : Shape) : Except ModelError Shape → Prop
  /-- Each operation takes what reaches it. -/
  | passes {last : Shape} (h : Passes ops shape last) : Decided index ops shape (.ok last)
  /-- An operation does not take what reaches it, and its fault is reported with its index. -/
  | refused {front back : List Op} {op : Op} {reached : Shape} {fault : OpFault}
      (hops : ops = front ++ op :: back) (hfront : Passes front shape reached)
      (hnone : ∀ next, ¬ op.Takes reached next) (hcounts : ¬ op.Overflows) :
      Decided index ops shape (.error (.op (index + front.length) fault))
  /-- An operation asks for a shape whose size does not fit a word. -/
  | overflows {front back : List Op} {op : Op} {reached : Shape}
      (hops : ops = front ++ op :: back) (hfront : Passes front shape reached)
      (hover : op.Overflows) : Decided index ops shape (.error (.shape .overflow))

/-! ## Operations without values -/

/-- The shape that an operation gives, or why it gives none. -/
def Op.shapeAfter (op : Op) (index : Nat) (shape : Shape) : Except ModelError Shape :=
  match op with
  | .conv c => ((c.plan false shape).map Convolution.Plan.shape).mapError (.op index)
  | .depthwise c => ((c.plan true shape).map Convolution.Plan.shape).mapError (.op index)
  | .addBias bias =>
    if bias.length = shape.getLast?.getD 1 then .ok shape
    else .error (.op index (.addedLength bias.length (shape.getLast?.getD 1)))
  | .activate _ => .ok shape
  | .reshape target =>
    match target.elementCount with
    | .error cause => .error (.shape cause)
    | .ok count =>
      if count = Shape.size shape then .ok target
      else .error (.op index (.reshape (Shape.size shape) target))

/-- The shape that operations give, or why one of them gives none. -/
def shapesAfter : (index : Nat) → List Op → Shape → Except ModelError Shape
  | _, [], shape => .ok shape
  | index, op :: ops, shape => do shapesAfter (index + 1) ops (← op.shapeAfter index shape)

theorem planned_eq_ok_iff {c : Convolution} {depthwise : Bool} :
    ((c.plan depthwise shape).map Convolution.Plan.shape).mapError (ModelError.op index) =
        .ok target ↔ ∃ p, c.Accepts depthwise shape p ∧ p.shape = target := by
  simp only [← Convolution.plan_eq_ok_iff]
  cases c.plan depthwise shape with
  | error fault => simp [Except.map, Except.mapError]
  | ok p => simp [Except.map, Except.mapError]

theorem planned_eq_error {c : Convolution} {depthwise : Bool} {cause : ModelError}
    (h : ((c.plan depthwise shape).map Convolution.Plan.shape).mapError (ModelError.op index) =
      .error cause) : ∃ fault, cause = .op index fault := by
  cases hplan : c.plan depthwise shape with
  | error fault =>
    rw [hplan] at h
    cases h
    exact ⟨fault, rfl⟩
  | ok p =>
    rw [hplan] at h
    cases h

/-- An operation gives a shape for those that it takes. -/
theorem Op.shapeAfter_eq_ok_iff :
    op.shapeAfter index shape = .ok target ↔ op.Takes shape target := by
  constructor
  · intro h
    cases op with
    | conv c =>
      obtain ⟨p, hp, htarget⟩ := (planned_eq_ok_iff).mp h
      exact htarget ▸ .conv hp
    | depthwise c =>
      obtain ⟨p, hp, htarget⟩ := (planned_eq_ok_iff).mp h
      exact htarget ▸ .depthwise hp
    | addBias bias =>
      by_cases hlength : bias.length = shape.getLast?.getD 1
      · rw [shapeAfter, if_pos hlength] at h
        cases h
        exact .addBias hlength
      · rw [shapeAfter, if_neg hlength] at h
        cases h
    | activate kind =>
      cases h
      exact .activate
    | reshape wanted =>
      rw [shapeAfter] at h
      cases hcount : wanted.elementCount with
      | error cause =>
        rw [hcount] at h
        cases h
      | ok count =>
        rw [hcount] at h
        by_cases hsize : count = Shape.size shape
        · cases (if_pos hsize).symm.trans h
          exact .reshape (hsize ▸ hcount)
        · cases (if_neg hsize).symm.trans h
  · intro htakes
    cases htakes with
    | conv hp => exact (planned_eq_ok_iff).mpr ⟨_, hp, rfl⟩
    | depthwise hp => exact (planned_eq_ok_iff).mpr ⟨_, hp, rfl⟩
    | addBias hlength => exact if_pos hlength
    | activate => rfl
    | reshape hcount =>
      rw [shapeAfter, hcount]
      exact if_pos rfl

/-- An operation that gives no shape is at fault itself, or its target is too large. -/
theorem Op.shapeAfter_eq_error {cause : ModelError}
    (h : op.shapeAfter index shape = .error cause) :
    (¬ op.Overflows ∧ ∃ fault, cause = .op index fault) ∨
      (op.Overflows ∧ cause = .shape .overflow) := by
  cases op with
  | conv c => exact Or.inl ⟨nofun, planned_eq_error h⟩
  | depthwise c => exact Or.inl ⟨nofun, planned_eq_error h⟩
  | addBias bias =>
    refine Or.inl ⟨nofun, ?_⟩
    by_cases hlength : bias.length = shape.getLast?.getD 1
    · rw [shapeAfter, if_pos hlength] at h
      cases h
    · rw [shapeAfter, if_neg hlength] at h
      cases h
      exact ⟨_, rfl⟩
  | activate kind => cases h
  | reshape wanted =>
    rw [shapeAfter] at h
    cases hcount : wanted.elementCount with
    | error fault =>
      rw [hcount] at h
      cases h
      obtain rfl := Shape.elementCount_eq_error hcount
      exact Or.inr ⟨⟨wanted, rfl, hcount⟩, rfl⟩
    | ok count =>
      have hcounts : ¬ (Op.reshape wanted).Overflows := by
        intro ⟨target, htarget, hover⟩
        cases htarget
        rw [hcount] at hover
        cases hover
      rw [hcount] at h
      by_cases hsize : count = Shape.size shape
      · cases (if_pos hsize).symm.trans h
      · cases (if_neg hsize).symm.trans h
        exact Or.inl ⟨hcounts, _, rfl⟩

/-- How a shape fares is how the next one fares in the operations behind. -/
theorem Decided.cons {next : Shape} {result : Except ModelError Shape}
    (htakes : op.Takes shape next) (h : Decided (index + 1) ops next result) :
    Decided index (op :: ops) shape result := by
  cases h with
  | passes hrest => exact .passes (.cons htakes hrest)
  | @refused front _ _ _ _ hops hfront hnone hcounts =>
    have hindex : index + 1 + front.length = index + (op :: front).length := by
      rw [List.length_cons]
      omega
    rw [hindex]
    exact .refused (by rw [hops, List.cons_append]) (.cons htakes hfront) hnone hcounts
  | overflows hops hfront hover =>
    exact .overflows (by rw [hops, List.cons_append]) (.cons htakes hfront) hover

/-- Shapes are decided by the operations in order. -/
theorem shapesAfter_decided (index : Nat) (ops : List Op) (shape : Shape) :
    Decided index ops shape (shapesAfter index ops shape) := by
  induction ops generalizing index shape with
  | nil => exact .passes (.nil shape)
  | cons op ops ih =>
    cases hnext : op.shapeAfter index shape with
    | ok next =>
      have htakes : op.Takes shape next := (Op.shapeAfter_eq_ok_iff).mp hnext
      have hresult : shapesAfter index (op :: ops) shape = shapesAfter (index + 1) ops next := by
        rw [shapesAfter, hnext]
        rfl
      rw [hresult]
      exact (ih (index + 1) next).cons htakes
    | error cause =>
      have hnone : ∀ next, ¬ op.Takes shape next := by
        intro next htakes
        rw [(Op.shapeAfter_eq_ok_iff).mpr htakes] at hnext
        cases hnext
      have hresult : shapesAfter index (op :: ops) shape = .error cause := by
        rw [shapesAfter, hnext]
        rfl
      have hsplit : op :: ops = [] ++ op :: ops := rfl
      rw [hresult]
      cases Op.shapeAfter_eq_error hnext with
      | inl hfault =>
        obtain ⟨hcounts, fault, hcause⟩ := hfault
        rw [hcause]
        exact .refused hsplit (.nil shape) hnone hcounts
      | inr hover =>
        rw [hover.2]
        exact .overflows hsplit (.nil shape) hover.1

/-! ## Operations on values -/

/-- There are as many values as the shape asks for. -/
def Activations.Counted (a : Activations) : Prop := a.shape.elementCount = .ok a.values.length

theorem Activations.Counted.length_eq (h : a.Counted) : a.values.length = Shape.size a.shape :=
  (Shape.elementCount_eq_ok h).1

/-- Where no number is added there is no value to add it to, so that the channel of a value is
found by a division by no zero. -/
theorem Activations.Counted.bias_ne_nil (h : a.Counted) {bias : List Single}
    (hlength : bias.length = a.shape.getLast?.getD 1) (hvalues : a.values ≠ []) : bias ≠ [] := by
  intro hnil
  have hlast : a.shape.getLast? = some 0 := by
    cases hlast : a.shape.getLast? with
    | none =>
      rw [hnil, hlast] at hlength
      cases hlength
    | some d =>
      rw [hnil, hlast] at hlength
      exact congrArg some hlength.symm
  have hsize : Shape.size a.shape = 0 := Shape.size_of_mem_zero (List.mem_of_getLast? hlast)
  have hlength : a.values.length = 0 := h.length_eq.trans hsize
  exact hvalues (List.eq_nil_of_length_eq_zero hlength)

/-- An operation on counted values gives the shape that it gives for their shape. -/
theorem Op.apply_shape (h : a.Counted) (op : Op) (index : Nat) :
    (op.apply index a).map Activations.shape = op.shapeAfter index a.shape := by
  cases op with
  | conv c =>
    rw [apply, shapeAfter, Convolution.run]
    cases c.plan false a.shape <;> rfl
  | depthwise c =>
    rw [apply, shapeAfter, Convolution.run]
    cases c.plan true a.shape <;> rfl
  | addBias bias =>
    rw [apply, shapeAfter]
    by_cases hlength : bias.length = a.shape.getLast?.getD 1
    · simp only [if_pos hlength]
      rfl
    · simp only [if_neg hlength]
      rfl
  | activate kind => rfl
  | reshape target =>
    rw [apply, shapeAfter, h.length_eq]
    cases target.elementCount with
    | error cause => rfl
    | ok count =>
      by_cases hsize : count = Shape.size a.shape
      · simp only [Except.mapError, bind, Except.bind, if_pos hsize]
        rfl
      · simp only [Except.mapError, bind, Except.bind, if_neg hsize]
        rfl

/-- A convolution gives as many values as the shape that it gives asks for. -/
theorem Convolution.run_counted (c : Convolution) (depthwise : Bool) (shape : Shape)
    (values : List Single) : Gives (c.run depthwise shape values) fun result =>
      result.1.elementCount = .ok result.2.length := by
  rw [run]
  refine .bind ((plan_accepts c depthwise shape).mono fun p hp => gives_ok ?_)
  have hlength : (c.outputs depthwise p values).length = Shape.size p.shape := by
    rw [outputs, List.length_map, List.length_range]
  rw [hlength]
  exact hp.outputCount

/-- Counted values stay counted. -/
theorem Op.apply_counted (h : a.Counted) (op : Op) (index : Nat) :
    Gives (op.apply index a) Activations.Counted := by
  cases op with
  | conv c =>
    refine .bind (((c.run_counted false a.shape a.values).mapError _).mono fun result hresult => ?_)
    exact gives_ok hresult
  | depthwise c =>
    refine .bind (((c.run_counted true a.shape a.values).mapError _).mono fun result hresult => ?_)
    exact gives_ok hresult
  | addBias bias =>
    have hlength : (addChannels bias a.values).length = a.values.length := by
      rw [addChannels, List.length_mapIdx]
    refine gives_ite (gives_ok ?_) gives_error
    rw [Activations.Counted, hlength]
    exact h
  | activate kind =>
    have hlength : (a.values.map kind.apply).length = a.values.length := List.length_map _
    refine gives_ok ?_
    rw [Activations.Counted, hlength]
    exact h
  | reshape target =>
    refine .bind (((gives_self _).mapError _).mono fun count hcount => ?_)
    refine gives_cases (fun hsize => gives_ok ?_) fun _ => gives_error
    rw [Activations.Counted, ← hsize]
    exact hcount

/-- Operations on counted values give counted values. -/
theorem applyAll_counted (h : a.Counted) (ops : List Op) (index : Nat) :
    Gives (applyAll index ops a) Activations.Counted := by
  induction ops generalizing index a with
  | nil => exact gives_ok h
  | cons op ops ih => exact .bind ((op.apply_counted h index).mono fun b hb => ih hb (index + 1))

/-- Operations on counted values give the shape that they give for their shape. -/
theorem applyAll_shape (h : a.Counted) (ops : List Op) (index : Nat) :
    (applyAll index ops a).map Activations.shape = shapesAfter index ops a.shape := by
  induction ops generalizing index a with
  | nil => rfl
  | cons op ops ih =>
    rw [applyAll, shapesAfter, ← op.apply_shape h index]
    cases hnext : op.apply index a with
    | error cause => rfl
    | ok b => exact ih ((op.apply_counted h index).of_ok hnext) (index + 1)

/-! ## Evaluations -/

variable {m : Model} {t : Tensor}

/-- What reaches the first operation. -/
def Activations.ofTensor (t : Tensor) : Activations := ⟨t.shape, t.toSingles⟩

theorem counted_ofTensor (h : t.shape.elementCount = .ok t.length) :
    (Activations.ofTensor t).Counted := by
  have hlength : t.toSingles.length = t.length := by
    rw [Tensor.toSingles, Tensor.length]
    cases t.elements with
    | f32 values => exact List.length_map _
    | u8 values => exact List.length_map _
  rw [Activations.Counted, Activations.ofTensor, hlength]
  exact h

/-- Counted values are those of a tensor. -/
theorem Activations.Counted.ofElements (h : a.Counted) :
    Tensor.ofElements a.shape (.f32 a.values) = .ok ⟨a.shape, .f32 a.values⟩ := by
  rw [Tensor.ofElements, h]
  exact if_pos rfl

/-- Nothing is left to fail behind the last operation. -/
theorem evaluate_eq (hsignature : Signature.ofTensor t = m.input)
    (hcount : t.shape.elementCount = .ok t.length) :
    m.evaluate t =
      (applyAll 0 m.ops (.ofTensor t)).map fun out => ⟨out.shape, .f32 out.values⟩ := by
  rw [Model.evaluate, if_neg (not_not.mpr hsignature)]
  change (applyAll 0 m.ops (.ofTensor t)).bind _ = _
  cases hrun : applyAll 0 m.ops (.ofTensor t) with
  | error cause => rfl
  | ok out =>
    have hout : out.Counted := (applyAll_counted (counted_ofTensor hcount) m.ops 0).of_ok hrun
    simp only [Except.bind, hout.ofElements]
    rfl

/-- An evaluation ends as the operations without values do. -/
theorem evaluate_shape (hsignature : Signature.ofTensor t = m.input)
    (hcount : t.shape.elementCount = .ok t.length) :
    (m.evaluate t).map Tensor.shape = shapesAfter 0 m.ops m.input.shape := by
  have hshape := applyAll_shape (counted_ofTensor hcount) m.ops 0
  rw [evaluate_eq hsignature hcount, ← hsignature]
  change _ = shapesAfter 0 m.ops (Activations.ofTensor t).shape
  rw [← hshape]
  cases applyAll 0 m.ops (.ofTensor t) <;> rfl

/-- The shapes alone decide how an evaluation ends. Whatever reaches an operation is counted, so
that it makes a tensor and that there is a number to add wherever there is a value; the end is a
tensor of words behind operations that each take what reaches them, or a fault that carries the
index of the first operation that does not, or an overflow at a target shape; and it is the same
end, with the same shape, for all counted tensors of the signature. -/
theorem evaluate_decided (hsignature : Signature.ofTensor t = m.input)
    (hcount : t.shape.elementCount = .ok t.length) :
    (∀ front back reached, m.ops = front ++ back →
      applyAll 0 front (.ofTensor t) = .ok reached →
      reached.shape.elementCount = .ok reached.values.length ∧
        (∃ out, Tensor.ofElements reached.shape (.f32 reached.values) = .ok out) ∧
        ∀ bias : List Single, bias.length = reached.shape.getLast?.getD 1 →
          reached.values ≠ [] → bias ≠ []) ∧
    Decided 0 m.ops t.shape ((m.evaluate t).map Tensor.shape) ∧
    (∀ out, m.evaluate t = .ok out →
      out.elementType = .f32 ∧ out.shape.elementCount = .ok out.length) ∧
    ∀ other : Tensor, Signature.ofTensor other = m.input →
      other.shape.elementCount = .ok other.length →
      (m.evaluate other).map Tensor.shape = (m.evaluate t).map Tensor.shape := by
  have hshape := evaluate_shape hsignature hcount
  refine ⟨?_, ?_, ?_, ?_⟩
  · intro front back reached _ hrun
    have hreached : reached.Counted :=
      (applyAll_counted (counted_ofTensor hcount) front 0).of_ok hrun
    exact ⟨hreached, ⟨_, hreached.ofElements⟩, fun bias hlength => hreached.bias_ne_nil hlength⟩
  · rw [hshape, ← hsignature]
    exact shapesAfter_decided 0 m.ops t.shape
  · intro out hout
    rw [evaluate_eq hsignature hcount] at hout
    cases hrun : applyAll 0 m.ops (.ofTensor t) with
    | error cause =>
      rw [hrun] at hout
      cases hout
    | ok reached =>
      rw [hrun] at hout
      cases hout
      exact ⟨rfl, (applyAll_counted (counted_ofTensor hcount) m.ops 0).of_ok hrun⟩
  · intro other hother hothers
    rw [evaluate_shape hother hothers, hshape]

/-- Two weights for each of two channels, a number for each of the four outputs, and all of it in
a row. -/
def flattened : Model where
  version := 1
  input := ⟨[1, 2, 2, 2], .f32⟩
  ops := [.depthwise Convolution.doubled, .addBias [.six, .six, .zero, .zero], .reshape [16]]

theorem flattened_decided :
    Decided 0 flattened.ops [1, 2, 2, 2] (.ok [16]) ∧
      ∀ other : Tensor, Signature.ofTensor other = flattened.input →
        other.shape.elementCount = .ok other.length →
        (flattened.evaluate other).map Tensor.shape = .ok [16] := by
  have hsignature : Signature.ofTensor ⟨[1, 2, 2, 2], .f32 (List.replicate 8 .six)⟩ =
      flattened.input := rfl
  have hend : (flattened.evaluate ⟨[1, 2, 2, 2], .f32 (List.replicate 8 .six)⟩).map Tensor.shape =
      .ok [16] := rfl
  have hdecided := evaluate_decided hsignature rfl
  rw [hend] at hdecided
  exact ⟨hdecided.2.1, hdecided.2.2.2⟩

end NetTrial.Graph
