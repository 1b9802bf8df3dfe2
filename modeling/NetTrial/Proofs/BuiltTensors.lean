import NetTrial.Proofs.Shapes
/-!
# Tensors that operations build

Every tensor that the operations build holds as many elements as the product of its dimensions.
Its shape is still counted, so that it can be reshaped, written and read again, unless it is
empty: rearranging the axes of an empty tensor can leave a shape whose count overflows before it
meets the zero.
-/

namespace NetTrial.Tensor

open Number

variable {t t' : Tensor}

/-- As many elements as the product of the dimensions, and no more than a word counts. -/
structure Sized (t : Tensor) : Prop where
  /-- The number of the elements. -/
  length : t.length = Shape.size t.shape
  /-- It is a word. -/
  bound : t.length < wordLimit

/-! ## One operation -/

theorem ofElements_sized (shape : Shape) (elements : Elements) :
    Gives (ofElements shape elements) Sized := by
  refine (ofElements_gives shape elements).mono ?_
  rintro t ⟨rfl, hcount⟩
  obtain ⟨hsize, hlt⟩ := Shape.elementCount_eq_ok hcount
  exact ⟨hsize, hlt⟩

theorem arange_sized (shape : Shape) (start : Single) : Gives (arange shape start) Sized := by
  rw [arange]
  exact gives_bind fun _ => ofElements_sized _ _

/-- Rearranged elements are as many as before, and so is the product of their dimensions. -/
theorem permuteAxes_sized (t : Tensor) (perm : List Nat) : Gives (t.permuteAxes perm) Sized := by
  obtain ⟨shape, elements⟩ := t
  rw [permuteAxes]
  cases elements with
  | f32 values =>
    refine .bind ((Shape.permuteValues_gives values shape perm).mono ?_)
    rintro ⟨target, moved⟩ ⟨hperm, rfl, hcount⟩
    obtain ⟨hsize, hlt⟩ := Shape.elementCount_eq_ok hcount
    exact gives_ok ⟨hsize.trans (Shape.size_rearrange hperm).symm, hlt⟩
  | u8 values =>
    refine .bind ((Shape.permuteValues_gives values shape perm).mono ?_)
    rintro ⟨target, moved⟩ ⟨hperm, rfl, hcount⟩
    obtain ⟨hsize, hlt⟩ := Shape.elementCount_eq_ok hcount
    exact gives_ok ⟨hsize.trans (Shape.size_rearrange hperm).symm, hlt⟩

/-! ## Any number of them -/

/-- Tensors that are built of elements or counted up, and then reshaped, rearranged or taken
into another axis order any number of times. -/
inductive Built : Tensor → Prop where
  /-- Built of elements. -/
  | ofElements {t : Tensor} {shape : Shape} {elements : Elements} :
      Tensor.ofElements shape elements = .ok t → Built t
  /-- Counted up. -/
  | arange {t : Tensor} {shape : Shape} {start : Single} :
      Tensor.arange shape start = .ok t → Built t
  /-- Reshaped. -/
  | reshaped {t t' : Tensor} {shape : Shape} : Built t → t.reshaped shape = .ok t' → Built t'
  /-- Rearranged. -/
  | permuteAxes {t t' : Tensor} {perm : List Nat} :
      Built t → t.permuteAxes perm = .ok t' → Built t'
  /-- Taken into another axis order. -/
  | convert {t t' : Tensor} {source target : AxisOrder} :
      Built t → t.convert source target = .ok t' → Built t'

theorem Built.sized (h : Built t) : t.Sized := by
  induction h with
  | ofElements h => exact (ofElements_sized _ _).of_ok h
  | arange h => exact (arange_sized _ _).of_ok h
  | reshaped _ h _ => exact (ofElements_sized _ _).of_ok h
  | permuteAxes _ h _ => exact (permuteAxes_sized _ _).of_ok h
  | convert _ h _ => exact (permuteAxes_sized _ _).of_ok h

namespace Sized

/-- The elements are counted when the dimensions in front of the first zero are. -/
theorem elementCount_iff (h : t.Sized) :
    t.shape.elementCount = .ok t.length ↔ Shape.size t.shape.lead < wordLimit := by
  rw [Shape.elementCount_eq_ok_iff]
  exact ⟨fun hc => hc.2, fun hc => ⟨h.length, hc⟩⟩

theorem reshaped_iff (h : t.Sized) :
    t.reshaped t.shape = .ok t ↔ Shape.size t.shape.lead < wordLimit := by
  rw [← h.elementCount_iff]
  constructor
  · intro hr
    exact ((ofElements_gives t.shape t.elements).of_ok hr).2
  · exact ofElements_of_count

theorem decode_iff (h : t.Sized) (hbytes : t.elements.toBytes.length < wordLimit) :
    RawFile.decode t.elements.toBytes t.shape t.elementType = .ok t ↔
      Shape.size t.shape.lead < wordLimit := by
  rw [← h.elementCount_iff]
  constructor
  · intro hd
    cases hc : t.shape.elementCount with
    | ok n => rw [h.length, (Shape.elementCount_eq_ok hc).1]
    | error e =>
      rw [RawFile.decode, checkPayload, hc] at hd
      cases hd
  · exact fun hc => decode_toBytes hc hbytes

/-- Elements that are there are counted. -/
theorem lead_lt (h : t.Sized) (hne : t.length ≠ 0) : Shape.size t.shape.lead < wordLimit := by
  rw [h.length] at hne
  rw [Shape.lead_of_size_ne_zero hne, ← h.length]
  exact h.bound

end Sized

/-- A tensor that operations build has as many elements as the product of its dimensions. It is
counted so, can be reshaped to its own shape and is read back from its bytes exactly when the
dimensions in front of the first zero multiply to a word, which they do unless it is empty. -/
theorem Built.counted_iff (h : Built t) :
    t.length = Shape.size t.shape ∧
      (t.shape.elementCount = .ok t.length ↔ Shape.size t.shape.lead < wordLimit) ∧
      (t.reshaped t.shape = .ok t ↔ Shape.size t.shape.lead < wordLimit) ∧
      (t.elements.toBytes.length < wordLimit →
        (RawFile.decode t.elements.toBytes t.shape t.elementType = .ok t ↔
          Shape.size t.shape.lead < wordLimit)) ∧
      (t.length ≠ 0 → Shape.size t.shape.lead < wordLimit) :=
  ⟨h.sized.length, h.sized.elementCount_iff, h.sized.reshaped_iff, h.sized.decode_iff,
    h.sized.lead_lt⟩

/-- An empty tensor between two large dimensions. -/
def parted : Tensor := ⟨[0x100000000, 0, 0x100000000], .u8 []⟩

/-- The same with the large dimensions side by side. -/
def joined : Tensor := ⟨[0x100000000, 0x100000000, 0], .u8 []⟩

theorem parted_built : Built parted := by
  have hbuilt : Tensor.ofElements parted.shape parted.elements = .ok parted := rfl
  exact .ofElements hbuilt

theorem joined_built : Built joined := by
  have hmoved : parted.permuteAxes [0, 2, 1] = .ok joined := rfl
  exact .permuteAxes parted_built hmoved

/-- The rearranged tensor is empty and cannot be reshaped to its own shape. -/
theorem joined_decided : Built joined ∧ joined.length = Shape.size joined.shape ∧
    joined.reshaped joined.shape ≠ .ok joined := by
  obtain ⟨hlength, -, hreshaped, -⟩ := joined_built.counted_iff
  exact ⟨joined_built, hlength, fun h => absurd (hreshaped.mp h) (by decide)⟩

/-- Operations build a tensor without elements whose shape is not counted as none. -/
theorem joined_uncounted : Built joined ∧ joined.length = 0 ∧
    joined.shape.elementCount = .error .overflow :=
  ⟨joined_built, rfl, rfl⟩

end NetTrial.Tensor
