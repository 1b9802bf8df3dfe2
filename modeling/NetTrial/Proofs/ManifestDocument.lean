import NetTrial.Proofs.Records
import NetTrial.Staging.Manifest
/-!
# The manifest is read back

A manifest whose version and dimensions fit what its document can say is read back from its
bytes. Every manifest that was read fits, and recording a tensor whose dimensions are words
keeps it fit, so that what a staging area writes is what it reads later.
-/

namespace NetTrial

open Json

/-- The recorded dimensions are words. -/
def TensorEntry.Fits (e : TensorEntry) : Prop := ∀ shape, e.shape = some shape → shape.Fits

namespace Manifest

/-- A manifest that its document can say. -/
structure Fits (m : Manifest) : Prop where
  /-- The version is one byte. -/
  version : m.version < 256
  /-- The recorded dimensions are words. -/
  tensors : ∀ e ∈ m.tensors, e.Fits

theorem fits_empty : Fits .empty := ⟨by decide, by intro e he; cases he⟩

theorem Fits.record {m : Manifest} (h : m.Fits) {e : TensorEntry} (he : e.Fits) :
    (m.record e).Fits := by
  refine ⟨h.version, fun old hold => ?_⟩
  rw [Manifest.record, List.mem_append] at hold
  rcases hold with hold | hold
  · exact h.tensors old (List.mem_filter.mp hold).1
  · rw [List.mem_singleton.mp hold]
    exact he

theorem Fits.withModel {m : Manifest} (h : m.Fits) (entry : Option ModelEntry) :
    Fits { m with model := entry } := ⟨h.version, h.tensors⟩

/-! ## Reading back -/

theorem asModelEntry_modelJson (e : ModelEntry) : asModelEntry (modelJson e) = .ok e := rfl

theorem asRole_name (r : Role) :
    asChoice .null Role.ofName? (string r.name) = .ok r := by
  cases r <;> rfl

theorem asShape_optional {e : TensorEntry} (h : e.Fits) :
    asOptional (asList (asNat wordLimit)) (optional (list nat) e.shape) = .ok e.shape := by
  exact asOptional_optional fun shape hs => ⟨by simp [list], asList_dimensions (h shape hs)⟩

/-- The document of each field of a tensor's entry. -/
def entryJson (e : TensorEntry) : TensorEntryField → Json
  | .case => string e.case
  | .role => string e.role.name
  | .file => string e.file
  | .shape => Json.optional (list nat) e.shape
  | .dtype => string e.dtype
  | .format => string e.format
  | .sha256 => string e.sha256

/-- The data of each field of a tensor's entry. -/
def entryData (e : TensorEntry) : (f : TensorEntryField) → tensorEntryRecord.data f
  | .case => e.case
  | .role => e.role
  | .file => e.file
  | .shape => e.shape
  | .dtype => e.dtype
  | .format => e.format
  | .sha256 => e.sha256

theorem decode_entryJson {e : TensorEntry} (h : e.Fits) (f : TensorEntryField) :
    tensorEntryRecord.decode f (entryJson e f) = .ok (entryData e f) := by
  cases f with
  | role => exact asRole_name e.role
  | shape => exact asShape_optional h
  | _ => rfl

theorem named_entryFields : ∀ f ∈ tensorEntryRecord.order,
    tensorEntryRecord.field? (tensorEntryRecord.name f) = some f := by
  intro f _
  cases f <;> rfl

theorem asTensorEntry_tensorJson {e : TensorEntry} (h : e.Fits) :
    asTensorEntry (tensorJson e) = .ok e := by
  obtain ⟨got, hread, hgot⟩ := tensorEntryRecord.read_object (entryJson e) (entryData e)
    named_entryFields (fun f _ => decode_entryJson h f) (by decide)
  have hjson : tensorEntryRecord.read (tensorJson e) = .ok got := hread
  have hall : ∀ f, got f = some (entryData e f) := by
    intro f
    refine hgot f ?_
    cases f <;> decide
  simp only [asTensorEntry, hjson, hall, bind, Except.bind, required]
  rfl

/-- The document of each field of a manifest. -/
def partJson (m : Manifest) : Field → Json
  | .version => nat m.version
  | .model => Json.optional modelJson m.model
  | .tensors => list tensorJson m.tensors

/-- The data of each field of a manifest. -/
def partData (m : Manifest) : (f : Field) → fieldRecord.data f
  | .version => m.version
  | .model => m.model
  | .tensors => m.tensors

theorem decode_partJson {m : Manifest} (h : m.Fits) (f : Field) :
    fieldRecord.decode f (partJson m f) = .ok (partData m f) := by
  cases f with
  | version =>
    exact asNat_nat h.version
  | model =>
    have hmodel : asOptional asModelEntry (Json.optional modelJson m.model) = .ok m.model :=
      asOptional_optional fun e _ => ⟨by simp [modelJson], asModelEntry_modelJson e⟩
    exact hmodel
  | tensors =>
    have htensors : asList asTensorEntry (list tensorJson m.tensors) = .ok m.tensors :=
      asList_list fun e he => asTensorEntry_tensorJson (h.tensors e he)
    exact htensors

theorem named_fields : ∀ f ∈ fieldRecord.order,
    fieldRecord.field? (fieldRecord.name f) = some f := by
  intro f _
  cases f <;> rfl

theorem asManifest_toJson {m : Manifest} (h : m.Fits) : asManifest m.toJson = .ok m := by
  obtain ⟨got, hread, hgot⟩ := fieldRecord.read_object (partJson m) (partData m)
    named_fields (fun f _ => decode_partJson h f) (by decide)
  have hjson : fieldRecord.read m.toJson = .ok got := hread
  have hall : ∀ f, got f = some (partData m f) := by
    intro f
    refine hgot f ?_
    cases f <;> decide
  simp only [asManifest, hjson, hall, bind, Except.bind, required]
  rfl

/-! ## The document has no broken marks -/

theorem written_modelJson (e : ModelEntry) : (modelJson e).Written := by
  simp [modelJson, Written, MembersWritten, member, written_string]

theorem written_tensorJson (e : TensorEntry) : (tensorJson e).Written := by
  have hshape := written_optional (written_list written_nat) e.shape
  simp [tensorJson, Written, MembersWritten, member, written_string, hshape]

theorem written_toJson (m : Manifest) : m.toJson.Written := by
  have hmodel := written_optional written_modelJson m.model
  have htensors := written_list written_tensorJson m.tensors
  simp [toJson, Written, MembersWritten, member, written_nat, hmodel, htensors]

/-- The characters of a manifest's document. -/
def document (m : Manifest) : List Char := chars .pretty 0 m.toJson

/-- A manifest that fits is read back from its document. -/
theorem ofChars_document {m : Manifest} (h : m.Fits) : ofChars m.document = .ok m := by
  rw [ofChars, document, readChars_chars m.written_toJson]
  exact decode_eq_ok_iff.mpr ⟨asManifest_toJson h, rfl⟩

theorem decodeChars?_bytes (m : Manifest) : Text.decodeChars? m.bytes = some m.document :=
  Text.decodeChars?_encodeChars m.document

/-! ## What was read fits -/

theorem fits_of_asTensorEntry {j : Json} {e : TensorEntry} (h : asTensorEntry j = .ok e) :
    e.Fits := by
  obtain ⟨got, hr, h⟩ := bind_eq_ok_iff.mp h
  simp only [required_bind_ok] at h
  obtain ⟨case, -, role, -, file, -, dtype, -, format, -, sha256, -, he⟩ := h
  cases he
  intro shape hs
  simp only at hs
  cases hg : got .shape with
  | none =>
    rw [hg] at hs
    cases hs
  | some found =>
    rw [hg] at hs
    cases hs
    obtain ⟨j', hj⟩ := tensorEntryRecord.honest_read hr .shape _ hg
    obtain ⟨_, hlist⟩ := asOptional_ok hj
    exact fits_of_asList hlist

theorem fits_of_asManifest {j : Json} {m : Manifest} (h : asManifest j = .ok m) : m.Fits := by
  obtain ⟨got, hr, h⟩ := bind_eq_ok_iff.mp h
  obtain ⟨version, hv, hm⟩ := required_bind_ok.mp h
  cases hm
  refine ⟨?_, fun e he => ?_⟩
  · obtain ⟨j', hj⟩ := fieldRecord.honest_read hr .version _ hv
    exact asNat_ok hj
  · simp only at he
    cases hg : got .tensors with
    | none =>
      rw [hg] at he
      cases he
    | some found =>
      rw [hg] at he
      obtain ⟨j', hj⟩ := fieldRecord.honest_read hr .tensors _ hg
      obtain ⟨_, he'⟩ := asList_ok_mem hj e he
      exact fits_of_asTensorEntry he'

/-- A manifest that was read fits its document. -/
theorem fits_of_ofChars {cs : List Char} {m : Manifest} (h : ofChars cs = .ok m) : m.Fits := by
  rw [ofChars] at h
  exact fits_of_asManifest (decode_eq_ok_iff.mp h).1

/-! ## What is read is what was written -/

theorem lt_of_asNat_nat {limit n k : Nat} (h : asNat limit (nat n) = .ok k) : n < limit := by
  refine Decidable.byContradiction fun hn => ?_
  simp [asNat, nat, Number.Spelling.ofNat, Number.Spelling.isIntegral, hn, malformed] at h

theorem fits_of_read_tensorJson {e e' : TensorEntry} (h : asTensorEntry (tensorJson e) = .ok e') :
    e.Fits := by
  intro shape hs
  obtain ⟨got, hr, -⟩ := bind_eq_ok_iff.mp h
  have hread : tensorEntryRecord.read (.object (tensorEntryRecord.order.map fun f =>
      member (tensorEntryRecord.name f) (entryJson e f))) = .ok got := hr
  obtain ⟨data, hd⟩ := tensorEntryRecord.decode_of_read_object named_entryFields hread .shape
    (by decide)
  have hshape : asOptional (asList (asNat wordLimit)) (optional (list nat) e.shape) = .ok data := hd
  rw [hs] at hshape
  obtain ⟨_, hlist⟩ := asOptional_optional_ok (by simp [list]) hshape
  intro d hmem
  obtain ⟨_, hnat⟩ := asList_list_ok hlist d hmem
  exact lt_of_asNat_nat hnat

theorem fits_of_read_toJson {m m' : Manifest} (h : asManifest m.toJson = .ok m') : m.Fits := by
  obtain ⟨got, hr, -⟩ := bind_eq_ok_iff.mp h
  have hread : fieldRecord.read (.object (fieldRecord.order.map fun f =>
      member (fieldRecord.name f) (partJson m f))) = .ok got := hr
  have hdecode := fieldRecord.decode_of_read_object named_fields hread
  refine ⟨?_, fun e he => ?_⟩
  · obtain ⟨version, hv⟩ := hdecode .version (by decide)
    exact lt_of_asNat_nat hv
  · obtain ⟨tensors, ht⟩ := hdecode .tensors (by decide)
    have hlist : asList asTensorEntry (list tensorJson m.tensors) = .ok tensors := ht
    obtain ⟨_, he'⟩ := asList_list_ok hlist e he
    exact fits_of_read_tensorJson he'

/-- A document that can be read at all gives the manifest that it was written for. -/
theorem eq_of_ofChars_document {m m' : Manifest} (h : ofChars m.document = .ok m') : m' = m := by
  have hfits : m.Fits := by
    rw [ofChars, document, readChars_chars m.written_toJson] at h
    exact fits_of_read_toJson (decode_eq_ok_iff.mp h).1
  rw [ofChars_document hfits] at h
  cases h
  rfl

end Manifest

end NetTrial
