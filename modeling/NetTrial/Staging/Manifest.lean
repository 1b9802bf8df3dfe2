import NetTrial.Json.Decoder
import NetTrial.Json.Printer
import NetTrial.Shape.Basic
/-!
# The manifest of a staging area

The manifest records the staged model and, for each case and role, the staged tensor file.
A case and role have one entry at most: recording a tensor again replaces its entry. The
manifest is kept as a pretty JSON document.
-/

namespace NetTrial

open Json

/-- What a staged tensor is for. -/
inductive Role where
  /-- The input of the model. -/
  | input
  /-- The reference output. -/
  | expected
  /-- The output of the runtime. -/
  | candidate
  deriving DecidableEq, Repr

namespace Role

/-- The part of the file name that names a role. -/
def stem : Role → String
  | .input => "input"
  | .expected => "expect"
  | .candidate => "candidate"

/-- The name of a role in the manifest. -/
def name : Role → String
  | .input => "input"
  | .expected => "expected"
  | .candidate => "candidate"

/-- The role of a name. -/
def ofName? (name : String) : Option Role :=
  if name = "input" then some .input
  else if name = "expected" then some .expected
  else if name = "candidate" then some .candidate
  else none

/-- A role is read back from its name. -/
theorem ofName?_name (r : Role) : ofName? r.name = some r := by cases r <;> rfl

end Role

/-- The record of the staged model. -/
structure ModelEntry where
  /-- The name of the file. -/
  file : String
  /-- The name of the serialization format. -/
  format : String
  /-- The digest of the file. -/
  sha256 : String
  deriving DecidableEq, Repr

/-- The record of a staged tensor. -/
structure TensorEntry where
  /-- The case. -/
  case : String
  /-- The role. -/
  role : Role
  /-- The name of the file. -/
  file : String
  /-- The dimensions; none for a raw file that a tool wrote. -/
  shape : Option Shape
  /-- The name of the element type. -/
  dtype : String
  /-- The name of the dataset format. -/
  format : String
  /-- The digest of the file. -/
  sha256 : String
  deriving DecidableEq, Repr

/-- What is staged. -/
structure Manifest where
  /-- The version of the document. -/
  version : Nat
  /-- The staged model. -/
  model : Option ModelEntry
  /-- The staged tensors, the latest recorded last. -/
  tensors : List TensorEntry
  deriving DecidableEq, Repr

namespace Manifest

/-- The manifest of an area where nothing is staged. -/
def empty : Manifest := ⟨1, none, []⟩

/-- Whether an entry is for a case and role. -/
def isFor (case : String) (role : Role) (e : TensorEntry) : Bool :=
  e.case == case && e.role == role

/-- The entry of a case and role. -/
def tensor? (m : Manifest) (case : String) (role : Role) : Option TensorEntry :=
  m.tensors.find? (isFor case role)

/-- Records a tensor in place of the one of its case and role. -/
def record (m : Manifest) (e : TensorEntry) : Manifest :=
  { m with tensors := (m.tensors.filter fun old => !isFor e.case e.role old) ++ [e] }

/-- A recorded tensor is the entry of its case and role. -/
theorem tensor?_record (m : Manifest) (e : TensorEntry) :
    (m.record e).tensor? e.case e.role = some e := by
  have h : (m.tensors.filter fun old => !isFor e.case e.role old).find? (isFor e.case e.role) =
      none := by
    simp [List.find?_eq_none]
  simp only [record, tensor?, List.find?_append, h]
  simp [isFor]

/-- Recording a tensor leaves the entries of other cases and roles. -/
theorem tensor?_record_of_ne (m : Manifest) {e : TensorEntry} {case : String} {role : Role}
    (h : ¬ (e.case = case ∧ e.role = role)) :
    (m.record e).tensor? case role = m.tensor? case role := by
  have he : isFor case role e = false := by simpa [isFor] using h
  simp only [record, tensor?, List.find?_append, List.find?_singleton, he]
  simp only [Bool.false_eq_true, if_false, Option.or_none]
  rw [List.find?_filter]
  congr 1
  funext old
  by_cases ho : isFor case role old = true
  · have : isFor e.case e.role old = false := by
      simp only [isFor, Bool.and_eq_true, beq_iff_eq] at ho
      simp only [isFor, Bool.and_eq_false_iff, beq_eq_false_iff_ne]
      by_cases hc : old.case = e.case
      · right
        intro hr
        exact h ⟨hc.symm.trans ho.1, hr.symm.trans ho.2⟩
      · left
        exact hc
    simp [ho, this]
  · simp [Bool.not_eq_true] at ho
    simp [ho]

/-! ## The document -/

/-- The entry of a model. -/
def modelJson (e : ModelEntry) : Json :=
  .object [member "file" (string e.file), member "format" (string e.format),
    member "sha256" (string e.sha256)]

/-- The entry of a tensor. -/
def tensorJson (e : TensorEntry) : Json :=
  .object
    [ member "case" (string e.case), member "role" (string e.role.name),
      member "file" (string e.file), member "shape" (optional (list nat) e.shape),
      member "dtype" (string e.dtype), member "format" (string e.format),
      member "sha256" (string e.sha256) ]

/-- The manifest. -/
def toJson (m : Manifest) : Json :=
  .object
    [ member "schema_version" (nat m.version), member "model" (optional modelJson m.model),
      member "tensors" (list tensorJson m.tensors) ]

/-- The document of a manifest. -/
def bytes (m : Manifest) : Text.Bytes := m.toJson.prettyBytes

/-- The fields of the entry of a model. -/
inductive ModelEntryField where
  /-- The name of the file. -/
  | file
  /-- The name of the format. -/
  | format
  /-- The digest. -/
  | sha256
  deriving DecidableEq

/-- The record of the entry of a model. -/
def modelEntryRecord : Record ModelEntryField where
  order := [.file, .format, .sha256]
  name
    | .file => "file"
    | .format => "format"
    | .sha256 => "sha256"
  data _ := String
  decode _ := asText

/-- Reads the entry of a model. -/
def asModelEntry (j : Json) : Decoded ModelEntry := do
  let got ← modelEntryRecord.read j
  return ⟨← required (got .file), ← required (got .format), ← required (got .sha256)⟩

/-- The fields of the entry of a tensor. -/
inductive TensorEntryField where
  /-- The case. -/
  | case
  /-- The role. -/
  | role
  /-- The name of the file. -/
  | file
  /-- The dimensions. -/
  | shape
  /-- The name of the element type. -/
  | dtype
  /-- The name of the dataset format. -/
  | format
  /-- The digest. -/
  | sha256
  deriving DecidableEq

/-- The record of the entry of a tensor. -/
def tensorEntryRecord : Record TensorEntryField where
  order := [.case, .role, .file, .shape, .dtype, .format, .sha256]
  name
    | .case => "case"
    | .role => "role"
    | .file => "file"
    | .shape => "shape"
    | .dtype => "dtype"
    | .format => "format"
    | .sha256 => "sha256"
  data
    | .case => String
    | .role => Role
    | .file => String
    | .shape => Option Shape
    | .dtype => String
    | .format => String
    | .sha256 => String
  decode
    | .case => asText
    | .role => asChoice .null Role.ofName?
    | .file => asText
    | .shape => asOptional (asList (asNat wordLimit))
    | .dtype => asText
    | .format => asText
    | .sha256 => asText

/-- Reads the entry of a tensor; the dimensions may be left out. -/
def asTensorEntry (j : Json) : Decoded TensorEntry := do
  let got ← tensorEntryRecord.read j
  return {
    case := ← required (got .case)
    role := ← required (got .role)
    file := ← required (got .file)
    shape := (got .shape).getD none
    dtype := ← required (got .dtype)
    format := ← required (got .format)
    sha256 := ← required (got .sha256) }

/-- The fields of a manifest. -/
inductive Field where
  /-- The version of the document. -/
  | version
  /-- The staged model. -/
  | model
  /-- The staged tensors. -/
  | tensors
  deriving DecidableEq

/-- The record of a manifest. -/
def fieldRecord : Record Field where
  order := [.version, .model, .tensors]
  name
    | .version => "schema_version"
    | .model => "model"
    | .tensors => "tensors"
  data
    | .version => Nat
    | .model => Option ModelEntry
    | .tensors => List TensorEntry
  decode
    | .version => asNat 256
    | .model => asOptional asModelEntry
    | .tensors => asList asTensorEntry

/-- Reads a manifest; the model and the tensors may be left out. -/
def asManifest (j : Json) : Decoded Manifest := do
  let got ← fieldRecord.read j
  return ⟨← required (got .version), (got .model).getD none, (got .tensors).getD []⟩

/-- Reads a manifest from its document. -/
def ofChars (cs : List Char) : Decoded Manifest := (readChars cs).decode asManifest

end Manifest

end NetTrial
