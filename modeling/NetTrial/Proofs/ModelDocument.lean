import NetTrial.Graph.Document
import NetTrial.Proofs.Records
import NetTrial.Proofs.SingleReading
/-!
# Models are read back

A model that was read has dimensions that are words and a version of one byte, so its document can
say all of it but numbers that are not finite: those are written as null, where a number is asked
for. So the document of a model is read as that model when all its numbers are finite, and is
refused otherwise.
-/

namespace NetTrial.Graph

open Json Number

/-! ## What a document can say -/

/-- A convolution whose dimensions are words. -/
structure Convolution.Fits (c : Convolution) : Prop where
  /-- The dimensions of the filter. -/
  filterShape : c.filterShape.shape.Fits
  /-- The strides. -/
  strides : Shape.Fits [c.strides.1, c.strides.2]
  /-- The dilations. -/
  dilations : Shape.Fits [c.dilations.1, c.dilations.2]

/-- An operation whose dimensions are words. -/
def Op.Fits : Op → Prop
  | .conv c => c.Fits
  | .depthwise c => c.Fits
  | .addBias _ => True
  | .activate _ => True
  | .reshape shape => shape.Fits

/-- A model that its document can say, numbers apart. -/
structure Model.Fits (m : Model) : Prop where
  /-- The version is one byte. -/
  version : m.version < 256
  /-- The dimensions of the input are words. -/
  input : m.input.shape.Fits
  /-- So are those of the operations. -/
  ops : ∀ op ∈ m.ops, op.Fits

/-- The numbers of a convolution. -/
def Convolution.numbers (c : Convolution) : List Single := c.filter ++ c.bias.getD []

/-- The numbers of an operation. -/
def Op.numbers : Op → List Single
  | .conv c => c.numbers
  | .depthwise c => c.numbers
  | .addBias bias => bias
  | .activate _ => []
  | .reshape _ => []

/-- All numbers of an operation are finite. -/
def Op.IsFinite (op : Op) : Prop := ∀ x ∈ op.numbers, x.isExtreme = false

instance (op : Op) : Decidable op.IsFinite :=
  List.decidableBAll (fun x : Single => x.isExtreme = false) op.numbers

/-- All numbers of a model are finite. -/
def Model.IsFinite (m : Model) : Prop := ∀ op ∈ m.ops, op.IsFinite

instance (m : Model) : Decidable m.IsFinite := List.decidableBAll Op.IsFinite m.ops

/-! ## What is kept whole -/

theorem isKept_number (n : Spelling) (depth : Nat) :
    isKept depth (.number n) = n.toDouble?.isSome := by
  cases depth <;> rfl

theorem isKept_array (items : List Json) (depth : Nat) :
    isKept (depth + 1) (.array items) = areKept depth items := rfl

theorem isKept_object (members : List (Token × Json)) (depth : Nat) :
    isKept (depth + 1) (.object members) = haveKept depth members := rfl

theorem areKept_cons (item : Json) (items : List Json) (depth : Nat) :
    areKept depth (item :: items) = (isKept depth item && areKept depth items) := rfl

theorem haveKept_nil (depth : Nat) : haveKept depth [] = true := rfl

theorem haveKept_cons (name : Token) (item : Json) (members : List (Token × Json)) (depth : Nat) :
    haveKept depth ((name, item) :: members) =
      (name != .garbled && isKept depth item && haveKept depth members) := rfl

theorem isKept_nat {n : Nat} (h : n < wordLimit) (depth : Nat) : (nat n).isKept depth = true := by
  rw [nat, isKept_number]
  exact Spelling.toDouble?_ofNat h

theorem isKept_single (x : Single) (depth : Nat) : (single x).isKept depth = true := by
  cases hx : x.isExtreme with
  | true =>
    rw [Single.json_of_isExtreme hx]
    cases depth <;> rfl
  | false =>
    obtain ⟨s, y, hjson, -, hy, -⟩ := Single.exists_spelling hx
    rw [hjson, isKept_number, hy]
    rfl

theorem isKept_list {α : Type} {encode : α → Json} {values : List α} {depth : Nat}
    (h : ∀ a ∈ values, (encode a).isKept depth = true) :
    (list encode values).isKept (depth + 1) = true := by
  rw [list, isKept_array]
  induction values with
  | nil => rfl
  | cons a values ih =>
    rw [List.map_cons, areKept_cons, h a List.mem_cons_self, Bool.true_and]
    exact ih fun b hb => h b (List.mem_cons_of_mem a hb)

theorem isKept_dimensions {shape : Shape} (h : shape.Fits) (depth : Nat) :
    (list nat shape).isKept (depth + 1) = true := isKept_list fun d hd => isKept_nat (h d hd) depth

theorem isKept_singles (values : List Single) (depth : Nat) :
    (list single values).isKept (depth + 1) = true := isKept_list fun x _ => isKept_single x depth

theorem isKept_string (s : String) (depth : Nat) : (string s).isKept depth = true := by
  rw [string]
  cases depth <;> rfl

theorem isKept_optional {α : Type} {encode : α → Json} {depth : Nat}
    (h : ∀ a, (encode a).isKept depth = true) (value : Option α) :
    (Json.optional encode value).isKept depth = true := by
  cases value with
  | none => cases depth <;> rfl
  | some a => exact h a

/-- The fields of a convolution can be kept whole. -/
theorem haveKept_members {c : Convolution} (h : c.Fits) (depth : Nat) :
    haveKept (depth + 1) c.members = true := by
  have hbias := isKept_optional (fun bias => isKept_singles bias depth) c.bias
  simp [Convolution.members, member, haveKept_cons, haveKept_nil, isKept_dimensions h.filterShape,
    isKept_dimensions h.strides, isKept_dimensions h.dilations, isKept_singles, isKept_string, hbias]

/-- An operation can be kept whole. -/
theorem isKept_op (op : Op) (h : op.Fits) (depth : Nat) :
    op.toJson.isKept (depth + 2) = true := by
  cases op with
  | conv c =>
    rw [Op.toJson, isKept_object, member, haveKept_cons, isKept_string, haveKept_members h]
    rfl
  | depthwise c =>
    rw [Op.toJson, isKept_object, member, haveKept_cons, isKept_string, haveKept_members h]
    rfl
  | addBias bias =>
    simp [Op.toJson, isKept_object, member, haveKept_cons, haveKept_nil, isKept_string,
      isKept_singles]
  | activate kind =>
    simp [Op.toJson, isKept_object, member, haveKept_cons, haveKept_nil, isKept_string]
  | reshape shape =>
    simp [Op.toJson, isKept_object, member, haveKept_cons, haveKept_nil, isKept_string,
      isKept_dimensions h]

/-! ## Fields -/

theorem asPair_pair {a b : Nat} (h : Shape.Fits [a, b]) : asPair (list nat [a, b]) = .ok (a, b) := by
  have hlist : asList asDimension (list nat [a, b]) = .ok [a, b] := asList_dimensions h
  simp only [asPair, asTuple, hlist, bind, Except.bind]
  rfl

theorem asFilterShape_shape {f : FilterShape} (h : f.shape.Fits) :
    asFilterShape (list nat f.shape) = .ok f := by
  have hlist : asList asDimension (list nat f.shape) = .ok f.shape := asList_dimensions h
  simp only [asFilterShape, asTuple, hlist, bind, Except.bind]
  rfl

theorem asPadding_name (p : Padding) : asPadding (string p.name) = .ok p := by
  cases p <;> rfl

theorem asActivation_name (a : Activation) : asActivation (string a.name) = .ok a := by
  cases a <;> rfl

theorem asElementType_name (k : ElementType) : asElementType (string k.name) = .ok k := by
  cases k <;> rfl

/-- Numbers are read back when they are finite. -/
theorem asList_singles {values : List Single} (h : ∀ x ∈ values, x.isExtreme = false) :
    asList asSingle (list single values) = .ok values :=
  asList_list fun x hx => (asSingle_single_iff x).mpr (h x hx)

/-- Numbers that are read are finite: the others are written as null. -/
theorem finite_of_asList {values read : List Single}
    (h : asList asSingle (list single values) = .ok read) : ∀ x ∈ values, x.isExtreme = false := by
  intro x hx
  obtain ⟨y, hy⟩ := asList_list_ok h x hx
  by_contra hc
  rw [Single.json_of_isExtreme (Bool.eq_true_of_not_eq_false hc)] at hy
  cases hy

/-! ## Convolutions -/

namespace Convolution

variable {c : Convolution}

/-- The document of each field of a convolution. -/
def json (c : Convolution) : ConvolutionField → Json
  | .filterShape => list nat c.filterShape.shape
  | .filter => list single c.filter
  | .bias => Json.optional (list single) c.bias
  | .strides => list nat [c.strides.1, c.strides.2]
  | .dilations => list nat [c.dilations.1, c.dilations.2]
  | .padding => string c.padding.name
  | .activation => string c.activation.name

/-- The data of each field of a convolution. -/
def data (c : Convolution) : (f : ConvolutionField) → convolutionRecord.data f
  | .filterShape => c.filterShape
  | .filter => c.filter
  | .bias => c.bias
  | .strides => c.strides
  | .dilations => c.dilations
  | .padding => c.padding
  | .activation => c.activation

theorem field?_name : ∀ f ∈ convolutionRecord.order,
    convolutionRecord.field? (convolutionRecord.name f) = some f := by
  intro f _
  cases f <;> rfl

theorem decode_json (h : c.Fits) (hfinite : ∀ x ∈ c.numbers, x.isExtreme = false)
    (f : ConvolutionField) : convolutionRecord.decode f (c.json f) = .ok (c.data f) := by
  cases f with
  | filterShape => exact asFilterShape_shape h.filterShape
  | filter => exact asList_singles fun x hx => hfinite x (List.mem_append_left _ hx)
  | bias =>
    refine asOptional_optional fun bias hb => ⟨by simp [list], asList_singles fun x hx => ?_⟩
    exact hfinite x (List.mem_append_right _ (by rw [hb]; exact hx))
  | strides => exact asPair_pair h.strides
  | dilations => exact asPair_pair h.dilations
  | padding => exact asPadding_name c.padding
  | activation => exact asActivation_name c.activation

/-- A convolution whose numbers are finite is read back from its fields. -/
theorem asConvolution_members (h : c.Fits) (hfinite : ∀ x ∈ c.numbers, x.isExtreme = false) :
    asConvolution (.object c.members) = .ok c := by
  obtain ⟨got, hread, hgot⟩ := convolutionRecord.read_object c.json c.data field?_name
    (fun f _ => decode_json h hfinite f) (by decide)
  have hjson : convolutionRecord.read (.object c.members) = .ok got := hread
  have hall : ∀ f, got f = some (c.data f) := by
    intro f
    refine hgot f ?_
    cases f <;> decide
  simp only [asConvolution, hjson, hall, bind, Except.bind, required]
  rfl

/-- A convolution that is read has finite numbers. -/
theorem finite_of_asConvolution {read : Convolution}
    (h : asConvolution (.object c.members) = .ok read) : ∀ x ∈ c.numbers, x.isExtreme = false := by
  obtain ⟨got, hr, -⟩ := bind_eq_ok_iff.mp h
  have hfields : ∀ f ∈ convolutionRecord.order,
      ∃ data, convolutionRecord.decode f (c.json f) = .ok data :=
    convolutionRecord.decode_of_read_object field?_name hr
  intro x hx
  rcases List.mem_append.mp hx with hx | hx
  · obtain ⟨filter, hfilter⟩ := hfields .filter (by decide)
    exact finite_of_asList hfilter x hx
  · obtain ⟨bias, hbias⟩ := hfields .bias (by decide)
    cases hb : c.bias with
    | none =>
      rw [hb] at hx
      cases hx
    | some values =>
      rw [hb] at hx
      have hoptional : asOptional (asList asSingle) (c.json .bias) = .ok bias := hbias
      rw [json, hb] at hoptional
      obtain ⟨read, hread⟩ := asOptional_optional_ok (by simp [list]) hoptional
      exact finite_of_asList hread x hx

end Convolution

/-! ## Operations -/

/-- The kind of an object whose other members have other names. -/
theorem splitKind_object (kind : String) {members : List (Token × Json)}
    (h : ∀ m ∈ members, m.1 ≠ .read "op") :
    splitKind (.object (member "op" (string kind) :: members)) = .ok (kind, .object members) := by
  have hsame : members.filter (fun m => m.1 == .read "op") = [] :=
    List.filter_eq_nil_iff.mpr fun m hm => by simpa using h m hm
  have hothers : members.filter (fun m => m.1 != .read "op") = members :=
    List.filter_eq_self.mpr fun m hm => by simpa using h m hm
  simp only [splitKind, member, List.filter_cons, beq_self_eq_true, if_true, hsame, bne_self_eq_false,
    Bool.false_eq_true, if_false, hothers]
  rfl

/-- An operation is read by its kind from its other members. -/
theorem asOp_object (kind : String) {members : List (Token × Json)}
    (hkept : (Json.object (member "op" (string kind) :: members)).isKept 125 = true)
    (hnames : ∀ m ∈ members, m.1 ≠ .read "op") :
    asOp 2 (.object (member "op" (string kind) :: members)) =
      if kind = "conv2d" then return .conv (← asConvolution (.object members))
      else if kind = "depthwise_conv2d" then return .depthwise (← asConvolution (.object members))
      else if kind = "bias_add" then
        return .addBias (← asSole "bias" (asList asSingle) (.object members))
      else if kind = "activation" then
        return .activate (← asSole "kind" asActivation (.object members))
      else if kind = "reshape" then
        return .reshape (← asSole "shape" (asList asDimension) (.object members))
      else malformed := by
  have hdeep : deepest - 2 = 125 := rfl
  simp only [asOp, hdeep, hkept, splitKind_object kind hnames, not_true, if_false, bind, Except.bind]

/-- The single field of an operation is read as its data. -/
theorem asSole_object {α : Type} (name : String) (decode : Json → Decoded α) (j : Json) :
    asSole name decode (.object [member name j]) = decode j := by
  have hfield : (soleRecord name decode).field? name = some () := by
    simp [Record.field?, soleRecord]
  have hread : (soleRecord name decode).read (.object [member name j]) =
      (decode j).map ((soleRecord name decode).put (soleRecord name decode).empty ()) := by
    simp only [Record.read, member, List.foldlM_cons, List.foldlM_nil, Record.readMember, hfield]
    cases hd : decode j <;>
    · simp only [soleRecord, hd]
      rfl
  rw [asSole, hread]
  cases decode j <;> rfl

theorem members_names (c : Convolution) : ∀ m ∈ c.members, m.1 ≠ .read "op" := by
  simp [Convolution.members, member]

/-- The operation that the document of an operation is read as, by its constructor. -/
theorem asOp_conv {c : Convolution} (h : c.Fits) :
    asOp 2 (Op.conv c).toJson = Op.conv <$> asConvolution (.object c.members) := by
  have hkept := isKept_op (.conv c) h 123
  rw [Op.toJson] at hkept ⊢
  rw [asOp_object "conv2d" hkept (members_names c)]
  cases asConvolution (.object c.members) <;> rfl

theorem asOp_depthwise {c : Convolution} (h : c.Fits) :
    asOp 2 (Op.depthwise c).toJson = Op.depthwise <$> asConvolution (.object c.members) := by
  have hkept := isKept_op (.depthwise c) h 123
  rw [Op.toJson] at hkept ⊢
  rw [asOp_object "depthwise_conv2d" hkept (members_names c)]
  cases asConvolution (.object c.members) <;> rfl

theorem asOp_addBias (bias : List Single) :
    asOp 2 (Op.addBias bias).toJson = Op.addBias <$> asList asSingle (list single bias) := by
  have hkept := isKept_op (.addBias bias) trivial 123
  rw [Op.toJson] at hkept ⊢
  rw [asOp_object "bias_add" hkept (by simp [member]), asSole_object]
  cases asList asSingle (list single bias) <;> rfl

theorem asOp_activate (kind : Activation) :
    asOp 2 (Op.activate kind).toJson = .ok (.activate kind) := by
  have hkept := isKept_op (.activate kind) trivial 123
  rw [Op.toJson] at hkept ⊢
  rw [asOp_object "activation" hkept (by simp [member]), asSole_object, asActivation_name]
  rfl

theorem asOp_reshape {shape : Shape} (h : shape.Fits) :
    asOp 2 (Op.reshape shape).toJson = .ok (.reshape shape) := by
  have hkept := isKept_op (.reshape shape) h 123
  have hlist : asList asDimension (list nat shape) = .ok shape := asList_dimensions h
  rw [Op.toJson] at hkept ⊢
  rw [asOp_object "reshape" hkept (by simp [member]), asSole_object, hlist]
  rfl

/-- An operation whose numbers are finite is read back. -/
theorem asOp_toJson {op : Op} (h : op.Fits) (hfinite : op.IsFinite) :
    asOp 2 op.toJson = .ok op := by
  cases op with
  | conv c =>
    rw [asOp_conv h, Convolution.asConvolution_members h hfinite]
    rfl
  | depthwise c =>
    rw [asOp_depthwise h, Convolution.asConvolution_members h hfinite]
    rfl
  | addBias bias =>
    have hbias : asList asSingle (list single bias) = .ok bias := asList_singles hfinite
    rw [asOp_addBias, hbias]
    rfl
  | activate kind => exact asOp_activate kind
  | reshape shape => exact asOp_reshape h

/-- Data that is read behind a function is read. -/
theorem ok_of_map_ok {α β : Type} {f : α → β} {x : Decoded α} {b : β} (h : f <$> x = .ok b) :
    ∃ a, x = .ok a := by
  cases x with
  | error e => cases h
  | ok a => exact ⟨a, rfl⟩

/-- An operation that is read has finite numbers. -/
theorem isFinite_of_asOp {op read : Op} (h : op.Fits) (hread : asOp 2 op.toJson = .ok read) :
    op.IsFinite := by
  cases op with
  | conv c =>
    rw [asOp_conv h] at hread
    obtain ⟨_, hc⟩ := ok_of_map_ok hread
    exact Convolution.finite_of_asConvolution hc
  | depthwise c =>
    rw [asOp_depthwise h] at hread
    obtain ⟨_, hc⟩ := ok_of_map_ok hread
    exact Convolution.finite_of_asConvolution hc
  | addBias bias =>
    rw [asOp_addBias] at hread
    obtain ⟨_, hb⟩ := ok_of_map_ok hread
    exact finite_of_asList hb
  | activate kind =>
    intro x hx
    cases hx
  | reshape shape =>
    intro x hx
    cases hx

/-! ## Models -/

/-- The document of each field of a signature. -/
def signatureJson (signature : Signature) : SignatureField → Json
  | .shape => list nat signature.shape
  | .dtype => string signature.kind.name

/-- The data of each field of a signature. -/
def signatureData (signature : Signature) : (f : SignatureField) → signatureRecord.data f
  | .shape => signature.shape
  | .dtype => signature.kind

/-- A signature whose dimensions are words is read back. -/
theorem asSignature_object {signature : Signature} (h : signature.shape.Fits) :
    asSignature (.object [member "shape" (list nat signature.shape),
      member "dtype" (string signature.kind.name)]) = .ok signature := by
  have hname : ∀ f ∈ signatureRecord.order,
      signatureRecord.field? (signatureRecord.name f) = some f := by
    intro f _
    cases f <;> rfl
  have hdecode : ∀ f ∈ signatureRecord.order,
      signatureRecord.decode f (signatureJson signature f) = .ok (signatureData signature f) := by
    intro f _
    cases f with
    | shape => exact asList_dimensions h
    | dtype => exact asElementType_name signature.kind
  obtain ⟨got, hread, hgot⟩ := signatureRecord.read_object (signatureJson signature)
    (signatureData signature) hname hdecode (by decide)
  have hjson : signatureRecord.read (.object [member "shape" (list nat signature.shape),
      member "dtype" (string signature.kind.name)]) = .ok got := hread
  have hall : ∀ f, got f = some (signatureData signature f) := by
    intro f
    refine hgot f ?_
    cases f <;> decide
  simp only [asSignature, hjson, hall, bind, Except.bind, required]
  rfl

namespace Model

variable {m : Model}

/-- The document of each field of a model. -/
def json (m : Model) : ModelField → Json
  | .version => nat m.version
  | .input => .object
      [member "shape" (list nat m.input.shape), member "dtype" (string m.input.kind.name)]
  | .ops => list Op.toJson m.ops

/-- The data of each field of a model. -/
def data (m : Model) : (f : ModelField) → (modelRecord 0).data f
  | .version => m.version
  | .input => m.input
  | .ops => m.ops

theorem field?_name : ∀ f ∈ (modelRecord 0).order,
    (modelRecord 0).field? ((modelRecord 0).name f) = some f := by
  intro f _
  cases f <;> rfl

theorem decode_json (h : m.Fits) (hfinite : m.IsFinite) (f : ModelField) :
    (modelRecord 0).decode f (m.json f) = .ok (m.data f) := by
  cases f with
  | version => exact asNat_nat h.version
  | input => exact asSignature_object h.input
  | ops => exact asList_list fun op hop => asOp_toJson (h.ops op hop) (hfinite op hop)

/-- A model whose numbers are finite is read back from its value. -/
theorem asModel_toJson (h : m.Fits) (hfinite : m.IsFinite) : asModel 0 m.toJson = .ok m := by
  obtain ⟨got, hread, hgot⟩ := (modelRecord 0).read_object m.json m.data field?_name
    (fun f _ => decode_json h hfinite f) (by decide)
  have hjson : (modelRecord 0).read m.toJson = .ok got := hread
  have hall : ∀ f, got f = some (m.data f) := by
    intro f
    refine hgot f ?_
    cases f <;> decide
  simp only [asModel, hjson, hall, bind, Except.bind, required]
  rfl

/-- A model that is read from its value has finite numbers. -/
theorem isFinite_of_asModel {read : Model} (h : m.Fits) (hread : asModel 0 m.toJson = .ok read) :
    m.IsFinite := by
  obtain ⟨got, hr, -⟩ := bind_eq_ok_iff.mp hread
  have hfields : ∀ f ∈ (modelRecord 0).order,
      ∃ data, (modelRecord 0).decode f (m.json f) = .ok data :=
    (modelRecord 0).decode_of_read_object field?_name hr
  obtain ⟨ops, hops⟩ := hfields .ops (by decide)
  intro op hop
  obtain ⟨read, hop'⟩ := asList_list_ok hops op hop
  exact isFinite_of_asOp (h.ops op hop) hop'

end Model

/-! ## What was read fits -/

theorem asList_of_asTuple {α : Type} {count : Nat} {item : Json → Decoded α} {j : Json}
    {values : List α} (h : asTuple count item j = .ok values) : asList item j = .ok values := by
  obtain ⟨items, hl, h⟩ := bind_eq_ok_iff.mp h
  split at h
  · cases h
    exact hl
  · cases h

theorem fits_of_asPair {j : Json} {pair : Nat × Nat} (h : asPair j = .ok pair) :
    Shape.Fits [pair.1, pair.2] := by
  obtain ⟨values, ht, h⟩ := bind_eq_ok_iff.mp h
  have hfits : Shape.Fits values := fits_of_asList (asList_of_asTuple ht)
  split at h
  · cases h
    exact hfits
  · cases h

theorem fits_of_asFilterShape {j : Json} {f : FilterShape} (h : asFilterShape j = .ok f) :
    f.shape.Fits := by
  obtain ⟨values, ht, h⟩ := bind_eq_ok_iff.mp h
  have hfits : Shape.Fits values := fits_of_asList (asList_of_asTuple ht)
  split at h
  · cases h
    exact hfits
  · cases h

/-- A pair that may be left out, and then is one in both directions. -/
theorem fits_getD {found : Option (Nat × Nat)}
    (h : ∀ pair, found = some pair → ∃ j, asPair j = .ok pair) :
    Shape.Fits [(found.getD (1, 1)).1, (found.getD (1, 1)).2] := by
  cases found with
  | none =>
    intro d hd
    have hone : d = 1 := by simpa using hd
    rw [hone]
    decide
  | some pair =>
    obtain ⟨j, hj⟩ := h pair rfl
    exact fits_of_asPair hj

theorem fits_of_asConvolution {j : Json} {c : Convolution} (h : asConvolution j = .ok c) :
    c.Fits := by
  obtain ⟨got, hr, h⟩ := bind_eq_ok_iff.mp h
  obtain ⟨filterShape, hshape, h⟩ := required_bind_ok.mp h
  obtain ⟨filter, -, h⟩ := required_bind_ok.mp h
  obtain ⟨padding, -, h⟩ := required_bind_ok.mp h
  cases h
  have hhonest := convolutionRecord.honest_read hr
  refine ⟨?_, fits_getD fun pair hg => hhonest .strides pair hg,
    fits_getD fun pair hg => hhonest .dilations pair hg⟩
  obtain ⟨j', hj⟩ := hhonest .filterShape _ hshape
  exact fits_of_asFilterShape hj

theorem exists_of_asSole {α : Type} {name : String} {decode : Json → Decoded α} {j : Json} {a : α}
    (h : asSole name decode j = .ok a) : ∃ j, decode j = .ok a := by
  obtain ⟨got, hr, h⟩ := bind_eq_ok_iff.mp h
  cases hg : got () with
  | none =>
    rw [hg] at h
    cases h
  | some found =>
    rw [hg] at h
    cases h
    exact (soleRecord name decode).honest_read hr () _ hg

/-- The ways an operation is read: by its kind from what is left of it. -/
theorem asOp_ok {depth : Nat} {j : Json} {op : Op} (h : asOp depth j = .ok op) :
    ∃ content,
      (∃ c, asConvolution content = .ok c ∧ (op = .conv c ∨ op = .depthwise c)) ∨
      (∃ bias, op = .addBias bias) ∨ (∃ kind, op = .activate kind) ∨
      ∃ shape, asSole "shape" (asList asDimension) content = .ok shape ∧ op = .reshape shape := by
  by_cases hkept : j.isKept (deepest - depth) = true
  · simp only [asOp, hkept, not_true, if_false] at h
    obtain ⟨⟨kind, content⟩, -, h⟩ := bind_eq_ok_iff.mp h
    refine ⟨content, ?_⟩
    dsimp only at h
    split at h
    · obtain ⟨c, hc, heq⟩ := bind_eq_ok_iff.mp h
      cases heq
      exact Or.inl ⟨c, hc, Or.inl rfl⟩
    split at h
    · obtain ⟨c, hc, heq⟩ := bind_eq_ok_iff.mp h
      cases heq
      exact Or.inl ⟨c, hc, Or.inr rfl⟩
    split at h
    · obtain ⟨bias, -, heq⟩ := bind_eq_ok_iff.mp h
      cases heq
      exact Or.inr (Or.inl ⟨bias, rfl⟩)
    split at h
    · obtain ⟨kind, -, heq⟩ := bind_eq_ok_iff.mp h
      cases heq
      exact Or.inr (Or.inr (Or.inl ⟨kind, rfl⟩))
    split at h
    · obtain ⟨shape, hshape, heq⟩ := bind_eq_ok_iff.mp h
      cases heq
      exact Or.inr (Or.inr (Or.inr ⟨shape, hshape, rfl⟩))
    · cases h
  · simp only [asOp, hkept] at h
    cases h

theorem fits_of_asOp {depth : Nat} {j : Json} {op : Op} (h : asOp depth j = .ok op) : op.Fits := by
  obtain ⟨content, h⟩ := asOp_ok h
  rcases h with ⟨c, hc, rfl | rfl⟩ | ⟨bias, rfl⟩ | ⟨kind, rfl⟩ | ⟨shape, hshape, rfl⟩
  · exact fits_of_asConvolution hc
  · exact fits_of_asConvolution hc
  · trivial
  · trivial
  · obtain ⟨j', hj⟩ := exists_of_asSole hshape
    exact fits_of_asList hj

theorem fits_of_asSignature {j : Json} {signature : Signature}
    (h : asSignature j = .ok signature) : signature.shape.Fits := by
  obtain ⟨got, hr, h⟩ := bind_eq_ok_iff.mp h
  obtain ⟨shape, hshape, heq⟩ := required_bind_ok.mp h
  cases heq
  obtain ⟨j', hj⟩ := signatureRecord.honest_read hr .shape _ hshape
  exact fits_of_asList hj

/-- A model that was read fits its document. -/
theorem fits_of_asModel {depth : Nat} {j : Json} {m : Model} (h : asModel depth j = .ok m) :
    m.Fits := by
  obtain ⟨got, hr, h⟩ := bind_eq_ok_iff.mp h
  obtain ⟨signature, hsignature, h⟩ := required_bind_ok.mp h
  obtain ⟨ops, hops, heq⟩ := required_bind_ok.mp h
  cases heq
  have hhonest := (modelRecord depth).honest_read hr
  refine ⟨?_, ?_, fun op hop => ?_⟩
  · cases hg : got .version with
    | none => exact show 1 < 256 by decide
    | some version =>
      obtain ⟨j', hj⟩ := hhonest .version _ hg
      exact asNat_ok hj
  · obtain ⟨j', hj⟩ := hhonest .input _ hsignature
    exact fits_of_asSignature hj
  · obtain ⟨j', hj⟩ := hhonest .ops _ hops
    obtain ⟨_, hop'⟩ := asList_ok_mem hj op hop
    exact fits_of_asOp hop'

/-! ## The document -/

theorem written_single (x : Single) : (single x).Written :=
  written_optional (fun n => by simp [Written]) _

theorem written_members (c : Convolution) : MembersWritten c.members := by
  have hbias := written_optional (written_list written_single) c.bias
  simp [Convolution.members, member, MembersWritten, written_list written_nat,
    written_list written_single, written_string, hbias]

theorem written_op (op : Op) : op.toJson.Written := by
  cases op with
  | conv c => simp [Op.toJson, Written, member, MembersWritten, written_string, written_members]
  | depthwise c => simp [Op.toJson, Written, member, MembersWritten, written_string, written_members]
  | addBias bias =>
    simp [Op.toJson, Written, member, MembersWritten, written_string, written_list written_single]
  | activate kind => simp [Op.toJson, Written, member, MembersWritten, written_string]
  | reshape shape =>
    simp [Op.toJson, Written, member, MembersWritten, written_string, written_list written_nat]

namespace Model

variable {m : Model}

theorem written_toJson (m : Model) : m.toJson.Written := by
  simp [toJson, Written, member, MembersWritten, written_nat, written_string,
    written_list written_nat, written_list written_op]

/-- A model is read from a document when it is read from its value. -/
theorem ofDocument_ok {d : Document} (h : ofDocument d = .ok m) : asModel 0 d.root = .ok m := by
  rw [ofDocument] at h
  exact (decode_eq_ok_iff.mp (mapError_eq_ok_iff.mp h)).1

/-- The bytes of a model are read as its value is. -/
theorem ofBytes_bytes (m : Model) :
    ofBytes m.bytes = (asModel 0 m.toJson).mapError fun fault => .decode fault.message := by
  rw [ofBytes, bytes, prettyBytes, readBytes_encodeChars, readChars_chars (written_toJson m),
    ofDocument, Document.decode]
  cases asModel 0 m.toJson <;> rfl

/-- The bytes of a model that fits are read as that model when all its numbers are finite, and are
refused otherwise. -/
theorem ofBytes_bytes_iff (h : m.Fits) (read : Model) :
    ofBytes m.bytes = .ok read ↔ read = m ∧ m.IsFinite := by
  rw [ofBytes_bytes, mapError_eq_ok_iff]
  constructor
  · intro hread
    have hfinite := isFinite_of_asModel h hread
    rw [asModel_toJson h hfinite] at hread
    cases hread
    exact ⟨rfl, hfinite⟩
  · rintro ⟨rfl, hfinite⟩
    exact asModel_toJson h hfinite

theorem fits_of_ofBytes {text : Text.Bytes} (h : ofBytes text = .ok m) : m.Fits :=
  fits_of_asModel (ofDocument_ok h)

/-- A model that was read can be written, and what it is written as is read as that model when all
its numbers are finite, and is refused otherwise; it is never read as another model. -/
theorem source_reads_back {text : Text.Bytes} (h : ofBytes text = .ok m) :
    ∃ bytes, m.source.serialized = .ok bytes ∧
      ∀ read, ofBytes bytes = .ok read ↔ read = m ∧ m.IsFinite :=
  ⟨m.bytes, rfl, ofBytes_bytes_iff (fits_of_ofBytes h)⟩

/-- A document with a decimal that no single is equal to, and with fields left out. -/
def tenthText : Text.Bytes :=
  Text.encode ("\x7b\"input\": \x7b\"shape\": [1, 2]\x7d, \"ops\": [" ++
    "\x7b\"op\": \"bias_add\", \"bias\": [-0.1, 3e-45]\x7d, " ++
    "\x7b\"kind\": \"relu6\", \"op\": \"activation\"\x7d]\x7d")

/-- The model of that document. -/
def tenth : Model :=
  ⟨1, ⟨[1, 2], .f32⟩, [.addBias [⟨0xBDCCCCCD⟩, ⟨0x00000002⟩], .activate .relu6]⟩

set_option maxRecDepth 4000 in
theorem tenth_reads_back : ofBytes tenthText = .ok tenth ∧
    ∃ bytes, tenth.source.serialized = .ok bytes ∧ ofBytes bytes = .ok tenth := by
  have hread : ofBytes tenthText = .ok tenth := rfl
  obtain ⟨bytes, hbytes, hback⟩ := source_reads_back hread
  exact ⟨hread, bytes, hbytes, (hback tenth).mpr ⟨rfl, by decide⟩⟩

/-- A document with a decimal beyond the finite singles. -/
def wideText : Text.Bytes :=
  Text.encode ("\x7b\"input\": \x7b\"shape\": [1]\x7d, \"ops\": [" ++
    "\x7b\"op\": \"bias_add\", \"bias\": [1e39]\x7d]\x7d")

/-- The model of that document, which adds an infinity. -/
def wide : Model := ⟨1, ⟨[1], .f32⟩, [.addBias [⟨0x7F800000⟩]]⟩

/-- A model that was read need not be readable once it is written. -/
theorem wide_refused : ofBytes wideText = .ok wide ∧
    ∃ bytes, wide.source.serialized = .ok bytes ∧ ∀ read, ofBytes bytes ≠ .ok read := by
  have hread : ofBytes wideText = .ok wide := rfl
  refine ⟨hread, wide.bytes, rfl, fun read h => ?_⟩
  have hfinite := ((ofBytes_bytes_iff (fits_of_ofBytes hread) read).mp h).2
  exact absurd hfinite (by decide)

end Model

end NetTrial.Graph
