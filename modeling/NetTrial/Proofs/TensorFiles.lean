import NetTrial.Dataset.Npy
import NetTrial.Proofs.Results
/-!
# The elements of a file

A tensor whose shape asks for as many elements as it has is read back from the bytes of its
elements, which is all that a raw file has.
-/

namespace NetTrial

open Number Text

/-- A tensor that a machine can hold: as many elements as its shape asks for, and dimensions
and bytes that are words. -/
structure Tensor.Representable (t : Tensor) : Prop where
  /-- The shape asks for the elements that are there. -/
  count : t.shape.elementCount = .ok t.length
  /-- The dimensions are words. -/
  dims : ∀ d ∈ t.shape, d < wordLimit
  /-- The number of bytes is a word. -/
  bytes : t.elements.toBytes.length < wordLimit

theorem Elements.length_toBytes (e : Elements) :
    e.toBytes.length = e.length * e.elementType.itemSize := by
  cases e with
  | f32 values =>
    simp only [toBytes, length, elementType, ElementType.itemSize]
    induction values with
    | nil => rfl
    | cons x values ih =>
      rw [List.flatMap_cons, List.length_append, ih, List.length_cons]
      simp only [Single.toBytes, List.length_cons, List.length_nil]
      omega
  | u8 values => simp [toBytes, length, elementType, ElementType.itemSize]

/-- The payload of a shape is as many bytes as its elements take, if that is a word. -/
theorem checkPayload_eq_ok_iff {shape : Shape} {count length : Nat} {kind : ElementType} :
    checkPayload shape length kind = .ok count ↔
      shape.elementCount = .ok count ∧ length = count * kind.itemSize ∧ length < wordLimit := by
  rw [checkPayload]
  cases hcounted : shape.elementCount with
  | error e =>
    constructor
    · intro h
      cases h
    · rintro ⟨hcount, -⟩
      cases hcount
  | ok counted =>
    change (Except.ok counted >>= _) = _ ↔ _
    simp only [bind, Except.bind, Except.ok.injEq]
    cases hmul : checkedMul counted kind.itemSize with
    | none =>
      constructor
      · intro h
        cases h
      · rintro ⟨hcount, hlength, hlt⟩
        have hsome := checkedMul_eq_some_iff.mpr ⟨rfl, hlength ▸ hlt⟩
        rw [← hcount, hmul] at hsome
        cases hsome
    | some expected =>
      obtain ⟨hexpected, hlt⟩ := checkedMul_eq_some_iff.mp hmul
      constructor
      · intro h
        simp only at h
        split at h
        · next hlength =>
          have hcount : counted = count := Except.ok.inj h
          rw [← hcount]
          exact ⟨rfl, hlength.trans hexpected, by rw [hlength, hexpected]; exact hlt⟩
        · cases h
      · rintro ⟨hcount, hlength, _⟩
        rw [← hcount] at hlength ⊢
        simp only [hlength, hexpected, if_true]
        rfl

/-- So many bytes as the elements of a shape take are its payload. -/
theorem checkPayload_of_count {shape : Shape} {count length : Nat} {kind : ElementType}
    (hcount : shape.elementCount = .ok count) (hlength : length = count * kind.itemSize)
    (hlt : length < wordLimit) : checkPayload shape length kind = .ok count :=
  (checkPayload_eq_ok_iff).mpr ⟨hcount, hlength, hlt⟩

namespace Tensor

variable {t : Tensor}

theorem ofElements_of_count (h : t.shape.elementCount = .ok t.length) :
    ofElements t.shape t.elements = .ok t := by
  rw [ofElements, h]
  simp only [bind, Except.bind, length, if_true]
  rfl

theorem ofPayload_toBytes (h : t.shape.elementCount = .ok t.length) :
    Tensor.ofPayload t.shape t.elementType t.elements.toBytes = .ok t := by
  rw [Tensor.ofPayload, elementType, Elements.ofBytes_toBytes, ofElements_of_count h]
  rfl

/-- A tensor is read back from its bare elements when its shape asks for as many. -/
theorem decode_toBytes (h : t.shape.elementCount = .ok t.length)
    (hbytes : t.elements.toBytes.length < wordLimit) :
    RawFile.decode t.elements.toBytes t.shape t.elementType = .ok t := by
  rw [RawFile.decode, elementType, checkPayload_of_count h t.elements.length_toBytes hbytes]
  exact ofPayload_toBytes h

end Tensor

theorem Tensor.ofPayload_shape (shape : Shape) (kind : ElementType) (bytes : Bytes) :
    Gives (Tensor.ofPayload shape kind bytes) fun t => t.shape = shape := by
  rw [Tensor.ofPayload, Tensor.ofElements]
  cases shape.elementCount with
  | error e => exact gives_error
  | ok count =>
    by_cases hl : (Elements.ofBytes kind bytes).length = count
    · simp only [bind, Except.bind, if_pos hl]
      exact gives_ok rfl
    · simp only [bind, Except.bind, if_neg hl]
      exact gives_error

end NetTrial
