import NetTrial.Trial.Suite
import NetTrial.Proofs.Shapes
/-!
# Reference outputs

What the evaluator of fixtures gives are words, as many as the shape asks for, whether or not
its axes were moved. Moving the axes keeps the number of elements but not the order in which the
dimensions are multiplied, so it takes an output that is not empty for the new shape to be
counted as the old one was.
-/

namespace NetTrial

open Number

namespace Tensor

/-- A tensor of words whose shape asks for as many as there are, unless there are none. -/
structure OfWords (t : Tensor) : Prop where
  /-- The elements are words. -/
  kind : t.elementType = .f32
  /-- The product of the dimensions is their number. -/
  size : t.length = Shape.size t.shape
  /-- Their number is a word. -/
  bound : t.length < wordLimit

/-- A tensor of words that is not empty and whose bytes can be numbered can be held. -/
theorem OfWords.representable {t : Tensor} (h : t.OfWords) (hne : t.length ≠ 0)
    (hbytes : 4 * t.length < wordLimit) : t.Representable := by
  have hsize : Shape.size t.shape ≠ 0 := h.size ▸ hne
  have hlt : Shape.size t.shape < wordLimit := h.size ▸ h.bound
  refine ⟨?_, fun d hd => ?_, ?_⟩
  · rw [h.size]
    exact Shape.elementCount_of_lt hlt hsize
  · exact Nat.lt_of_le_of_lt (Shape.le_size_of_mem hd hsize) hlt
  · have hkind : t.elements.elementType = .f32 := h.kind
    rw [Elements.length_toBytes, hkind, Nat.mul_comm]
    exact hbytes

end Tensor

/-! ## Evaluating -/

/-- Words under a shape that asks for them. -/
theorem Tensor.ofElements_ofWords (shape : Shape) (values : List Single) :
    Gives (Tensor.ofElements shape (.f32 values)) Tensor.OfWords := by
  refine (Tensor.ofElements_gives shape (.f32 values)).mono ?_
  rintro t ⟨rfl, hcount⟩
  obtain ⟨hsize, hlt⟩ := Shape.elementCount_eq_ok hcount
  exact ⟨rfl, hsize, hlt⟩

theorem Interpreter.graph_gives (serialized : Text.Bytes) (input : Tensor) :
    Gives (Interpreter.graph.invoke serialized input) Tensor.OfWords := by
  change Gives (Graph.Model.ofBytes serialized >>= fun m => m.evaluate input) _
  refine gives_bind fun m => ?_
  rw [Graph.Model.evaluate]
  have hfinish : ∀ out : Graph.Activations, Gives ((Tensor.ofElements out.shape
      (.f32 out.values)).mapError ModelError.shape) Tensor.OfWords :=
    fun out => (Tensor.ofElements_ofWords out.shape out.values).mapError _
  exact gives_ite (gives_bind fun _ => gives_bind hfinish) (gives_bind hfinish)

/-- Words whose channels were moved to the front. -/
theorem Tensor.OfWords.convert {t : Tensor} (h : t.OfWords) :
    Gives (t.convert .nhwc .nchw) Tensor.OfWords := by
  rw [Tensor.convert, Tensor.permuteAxes]
  obtain ⟨shape, elements⟩ := t
  cases elements with
  | u8 values => cases h.kind
  | f32 values =>
    refine .bind ((Shape.permuteValues_gives values shape _).mono ?_)
    rintro ⟨target, moved⟩ ⟨hperm, rfl, hcount⟩
    obtain ⟨hsize, hlt⟩ := Shape.elementCount_eq_ok hcount
    exact gives_ok ⟨rfl, hsize.trans (Shape.size_rearrange hperm).symm, hlt⟩

/-- What the evaluator of fixtures gives are words under their shape. -/
theorem Fixture.evaluator_gives (serialized : Text.Bytes) (input : Tensor) :
    Gives (Fixture.evaluator.evaluate serialized input) Tensor.OfWords := by
  rw [Evaluator.evaluate]
  refine gives_bind fun converted => ?_
  refine .bind (((Interpreter.graph_gives serialized converted).mapError _).mono fun output h => ?_)
  by_cases hrank : output.shape.length ≠ 4
  · rw [if_pos hrank]
    exact gives_ok h
  · rw [if_neg hrank]
    exact h.convert.mapError _

end NetTrial
