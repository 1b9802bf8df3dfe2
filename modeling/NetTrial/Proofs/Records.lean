import NetTrial.Proofs.Documents
import NetTrial.Proofs.Results
import NetTrial.Shape.Basic
/-!
# Records and lists are read back

What an encoder writes as a list or as something that may be absent is read back when the
items are. A record that gives each of its fields once, under its name, is read as the data of
these fields; and whatever a record holds was read from some value by the decoder of its field.
When a list or a record is read at all, so are its items or its fields.
-/

namespace NetTrial.Json

variable {α : Type}

/-- A document gives what its value gives when nothing follows the value. -/
theorem decode_eq_ok_iff {item : Json → Decoded α} {d : Document} {a : α} :
    d.decode item = .ok a ↔ item d.root = .ok a ∧ d.ends = true := by
  rw [Document.decode, bind_eq_ok_iff]
  constructor
  · rintro ⟨found, hfound, h⟩
    obtain ⟨hends, heq⟩ := admit_eq_ok_iff.mp h
    cases heq
    exact ⟨hfound, hends⟩
  · rintro ⟨hfound, hends⟩
    exact ⟨a, hfound, admit_eq_ok_iff.mpr ⟨hends, rfl⟩⟩

/-! ## Lists and absence -/

theorem asNat_nat {limit n : Nat} (h : n < limit) : asNat limit (nat n) = .ok n := by
  simp [asNat, nat, Number.Spelling.ofNat, Number.Spelling.isIntegral, h]

theorem asNat_ok {limit n : Nat} {j : Json} (h : asNat limit j = .ok n) : n < limit := by
  cases j with
  | number s =>
    rw [asNat] at h
    obtain ⟨hc, hn⟩ := admit_eq_ok_iff.mp h
    cases hn
    simp only [Bool.and_eq_true, decide_eq_true_eq] at hc
    exact hc.2
  | _ => cases h

theorem mapM_map_ok {item : Json → Decoded α} {encode : α → Json} {values : List α}
    (h : ∀ a ∈ values, item (encode a) = .ok a) :
    (values.map encode).mapM item = .ok values := by
  induction values with
  | nil => rfl
  | cons a values ih =>
    rw [List.map_cons, List.mapM_cons, h a List.mem_cons_self,
      ih fun b hb => h b (List.mem_cons_of_mem a hb)]
    rfl

/-- A list is read back when its items are. -/
theorem asList_list {item : Json → Decoded α} {encode : α → Json} {values : List α}
    (h : ∀ a ∈ values, item (encode a) = .ok a) :
    asList item (list encode values) = .ok values := mapM_map_ok h

theorem mapM_ok_mem {item : Json → Decoded α} {js : List Json} {values : List α}
    (h : js.mapM item = .ok values) : ∀ a ∈ values, ∃ j, item j = .ok a := by
  induction js generalizing values with
  | nil =>
    cases h
    intro a ha
    cases ha
  | cons j js ih =>
    rw [List.mapM_cons] at h
    obtain ⟨b, hj, h⟩ := bind_eq_ok_iff.mp h
    obtain ⟨bs, hjs, h⟩ := bind_eq_ok_iff.mp h
    cases h
    intro a ha
    rcases List.mem_cons.mp ha with rfl | ha
    · exact ⟨j, hj⟩
    · exact ih hjs a ha

theorem asList_ok_mem {item : Json → Decoded α} {j : Json} {values : List α}
    (h : asList item j = .ok values) : ∀ a ∈ values, ∃ j, item j = .ok a := by
  cases j with
  | array js => exact mapM_ok_mem h
  | _ => cases h

/-- Of a list that is read all items are read. -/
theorem asList_list_ok {β : Type} {item : Json → Decoded β} {encode : α → Json} {values : List α}
    {read : List β} (h : asList item (list encode values) = .ok read) :
    ∀ a ∈ values, ∃ b, item (encode a) = .ok b := by
  change (values.map encode).mapM item = .ok read at h
  induction values generalizing read with
  | nil =>
    intro a ha
    cases ha
  | cons a values ih =>
    rw [List.map_cons, List.mapM_cons] at h
    obtain ⟨b, hj, h⟩ := bind_eq_ok_iff.mp h
    obtain ⟨bs, hjs, -⟩ := bind_eq_ok_iff.mp h
    intro a' ha'
    rcases List.mem_cons.mp ha' with rfl | ha'
    · exact ⟨b, hj⟩
    · exact ih hjs a' ha'

/-- What may be absent is read back when it is not written as null. -/
theorem asOptional_optional {item : Json → Decoded α} {encode : α → Json} {value : Option α}
    (h : ∀ a, value = some a → encode a ≠ .null ∧ item (encode a) = .ok a) :
    asOptional item (optional encode value) = .ok value := by
  cases value with
  | none => rfl
  | some a =>
    obtain ⟨hn, ha⟩ := h a rfl
    rw [optional, asOptional.eq_def]
    split
    · rename_i heq
      exact absurd heq hn
    · rw [ha]
      rfl

theorem asOptional_ok {item : Json → Decoded α} {j : Json} {a : α}
    (h : asOptional item j = .ok (some a)) : ∃ j, item j = .ok a := by
  rw [asOptional.eq_def] at h
  split at h
  · cases h
  · cases hj : item j with
    | error e =>
      rw [hj] at h
      cases h
    | ok b =>
      rw [hj] at h
      cases h
      exact ⟨j, hj⟩

/-- What is there and not written as null is read when the whole is. -/
theorem asOptional_optional_ok {β : Type} {item : Json → Decoded β} {encode : α → Json}
    {a : α} {read : Option β} (hn : encode a ≠ .null)
    (h : asOptional item (optional encode (some a)) = .ok read) : ∃ b, item (encode a) = .ok b := by
  rw [optional, asOptional.eq_def] at h
  split at h
  · rename_i heq
    exact absurd heq hn
  · cases hj : item (encode a) with
    | error e =>
      rw [hj] at h
      cases h
    | ok b => exact ⟨b, rfl⟩

/-! ## Records -/

theorem required_bind_ok {β : Type} {x : Option α} {f : α → Decoded β} {b : β} :
    (required x >>= f) = .ok b ↔ ∃ a, x = some a ∧ f a = .ok b := by
  cases x with
  | none =>
    constructor
    · intro h
      cases h
    · rintro ⟨a, ha, -⟩
      cases ha
  | some a =>
    constructor
    · intro h
      exact ⟨a, rfl, h⟩
    · rintro ⟨a', ha, h⟩
      cases ha
      exact h

namespace Record

variable {F : Type} [DecidableEq F] (r : Record F)

theorem put_same (got : r.Filled) (f : F) (data : r.data f) : r.put got f data f = some data := by
  simp [put]

theorem put_of_ne (got : r.Filled) {f g : F} (data : r.data f) (h : g ≠ f) :
    r.put got f data g = got g := by
  simp [put, h]

/-- A member that names a field is read when the field was not given yet and its value can be
read. -/
theorem readMember_eq_ok_iff {got got' : r.Filled} {name : String} {f : F} {j : Json}
    (hf : r.field? name = some f) :
    r.readMember got (.read name, j) = .ok got' ↔
      got f = none ∧ ∃ data, r.decode f j = .ok data ∧ r.put got f data = got' := by
  simp only [readMember, hf, malformed, refuse_eq_ok_iff, bind_eq_ok_iff]
  simp [pure, Except.pure]

/-- Members that each give another field, all of which are read, are read as their data. -/
theorem foldlM_fields {given : List F} (json : F → Json) (data : (f : F) → r.data f)
    (hname : ∀ f ∈ given, r.field? (r.name f) = some f)
    (hdata : ∀ f ∈ given, r.decode f (json f) = .ok (data f)) (hnodup : given.Nodup)
    {start : r.Filled} (hstart : ∀ f ∈ given, start f = none) :
    ∃ got, (given.map fun f => member (r.name f) (json f)).foldlM r.readMember start = .ok got ∧
      (∀ f ∈ given, got f = some (data f)) ∧ ∀ f, f ∉ given → got f = start f := by
  induction given generalizing start with
  | nil =>
    refine ⟨start, rfl, fun f hf => ?_, fun _ _ => rfl⟩
    cases hf
  | cons f given ih =>
    obtain ⟨hf, hrest⟩ := List.nodup_cons.mp hnodup
    have hmem : f ∈ f :: given := List.mem_cons_self
    have hput : ∀ g ∈ given, r.put start f (data f) g = none := by
      intro g hg
      have hne : g ≠ f := by
        rintro rfl
        exact hf hg
      rw [put_of_ne r start (data f) hne]
      exact hstart g (List.mem_cons_of_mem f hg)
    obtain ⟨got, hread, hgot, hother⟩ := ih
      (fun g hg => hname g (List.mem_cons_of_mem f hg))
      (fun g hg => hdata g (List.mem_cons_of_mem f hg)) hrest hput
    refine ⟨got, ?_, fun g hg => ?_, fun g hg => ?_⟩
    · rw [List.map_cons, List.foldlM_cons,
        member, (r.readMember_eq_ok_iff (hname f hmem)).mpr ⟨hstart f hmem, _, hdata f hmem, rfl⟩]
      exact hread
    · rcases List.mem_cons.mp hg with rfl | hg
      · rw [hother g hf, put_same]
      · exact hgot g hg
    · rw [List.mem_cons, not_or] at hg
      rw [hother g hg.2, put_of_ne r start (data f) hg.1]

/-- An object that gives each of some fields once is read as their data. -/
theorem read_object {given : List F} (json : F → Json) (data : (f : F) → r.data f)
    (hname : ∀ f ∈ given, r.field? (r.name f) = some f)
    (hdata : ∀ f ∈ given, r.decode f (json f) = .ok (data f)) (hnodup : given.Nodup) :
    ∃ got, r.read (.object (given.map fun f => member (r.name f) (json f))) = .ok got ∧
      ∀ f ∈ given, got f = some (data f) := by
  obtain ⟨got, hread, hgot, -⟩ :=
    r.foldlM_fields json data hname hdata hnodup fun f _ => (rfl : r.empty f = none)
  exact ⟨got, hread, hgot⟩

/-- Of an object that is read all fields are read. -/
theorem decode_of_read_object {given : List F} {json : F → Json} {got : r.Filled}
    (hname : ∀ f ∈ given, r.field? (r.name f) = some f)
    (h : r.read (.object (given.map fun f => member (r.name f) (json f))) = .ok got) :
    ∀ f ∈ given, ∃ data, r.decode f (json f) = .ok data := by
  rw [read] at h
  generalize r.empty = start at h
  induction given generalizing start with
  | nil =>
    intro f hf
    cases hf
  | cons f given ih =>
    rw [List.map_cons, List.foldlM_cons] at h
    obtain ⟨next, hm, h⟩ := bind_eq_ok_iff.mp h
    obtain ⟨-, data, hd, -⟩ := (r.readMember_eq_ok_iff (hname f List.mem_cons_self)).mp hm
    intro g hgiven
    rcases List.mem_cons.mp hgiven with rfl | hgiven
    · exact ⟨data, hd⟩
    · exact ih (fun g hg => hname g (List.mem_cons_of_mem f hg)) next h g hgiven

/-- Data that were read by the decoders of their fields. -/
def Honest (got : r.Filled) : Prop := ∀ f data, got f = some data → ∃ j, r.decode f j = .ok data

theorem Honest.put {r : Record F} {got : r.Filled} (h : r.Honest got) {f : F} {j : Json}
    {data : r.data f} (hd : r.decode f j = .ok data) : r.Honest (r.put got f data) := by
  intro g data' hg
  by_cases hgf : g = f
  · subst hgf
    rw [put_same] at hg
    cases hg
    exact ⟨j, hd⟩
  · rw [put_of_ne r got data hgf] at hg
    exact h g data' hg

theorem honest_readMember {got got' : r.Filled} {m : Token × Json} (h : r.Honest got)
    (hm : r.readMember got m = .ok got') : r.Honest got' := by
  obtain ⟨token, j⟩ := m
  cases token with
  | garbled => cases hm
  | read name =>
    cases hf : r.field? name with
    | none =>
      simp only [readMember, hf] at hm
      obtain ⟨-, hm⟩ := admit_eq_ok_iff.mp hm
      cases hm
      exact h
    | some f =>
      obtain ⟨-, data, hd, rfl⟩ := (r.readMember_eq_ok_iff hf).mp hm
      exact h.put hd

theorem honest_readItems {got got' : r.Filled} (fs : List F) (js : List Json)
    (h : r.Honest got) (hr : r.readItems got fs js = .ok got') : r.Honest got' := by
  induction js generalizing fs got with
  | nil =>
    cases fs <;>
    · cases hr
      exact h
  | cons j js ih =>
    cases fs with
    | nil => cases hr
    | cons f fs =>
      rw [readItems] at hr
      obtain ⟨data, hd, hr⟩ := bind_eq_ok_iff.mp hr
      exact ih fs (h.put hd) hr

/-- What a record was read as was read by the decoders of its fields. -/
theorem honest_read {got : r.Filled} {j : Json} (h : r.read j = .ok got) : r.Honest got := by
  have hempty : r.Honest r.empty := by
    intro f data hf
    cases hf
  cases j with
  | object members =>
    rw [read] at h
    generalize r.empty = start at h hempty
    induction members generalizing start with
    | nil =>
      cases h
      exact hempty
    | cons m members ih =>
      rw [List.foldlM_cons] at h
      obtain ⟨next, hm, h⟩ := bind_eq_ok_iff.mp h
      exact ih next h (r.honest_readMember hempty hm)
  | array items => exact r.honest_readItems r.order items hempty h
  | _ => cases h

end Record

/-! ## Values without broken marks -/

theorem allWritten_map {encode : α → Json} (h : ∀ a, (encode a).Written)
    (values : List α) : AllWritten (values.map encode) := by
  induction values with
  | nil => rw [List.map_nil, AllWritten]; trivial
  | cons a values ih =>
    rw [List.map_cons, AllWritten]
    exact ⟨h a, ih⟩

theorem written_string (s : String) : (string s).Written := by
  simp [string, Written]

theorem written_nat (n : Nat) : (nat n).Written := by
  simp [nat, Written]

theorem written_list {encode : α → Json} (h : ∀ a, (encode a).Written)
    (values : List α) : (list encode values).Written := by
  rw [list, Written]
  exact allWritten_map h values

theorem written_optional {encode : α → Json} (h : ∀ a, (encode a).Written)
    (value : Option α) : (Json.optional encode value).Written := by
  cases value with
  | none => simp [Json.optional, Written]
  | some a => exact h a

end NetTrial.Json

namespace NetTrial

open Json

/-- The dimensions of a shape are words. -/
def Shape.Fits (shape : Shape) : Prop := ∀ d ∈ shape, d < wordLimit

/-- Dimensions that are words are read back. -/
theorem asList_dimensions {shape : Shape} (h : shape.Fits) :
    asList (asNat wordLimit) (list nat shape) = .ok shape := asList_list fun d hd => asNat_nat (h d hd)

theorem fits_of_asList {j : Json} {shape : Shape} (h : asList (asNat wordLimit) j = .ok shape) :
    shape.Fits := by
  intro d hd
  obtain ⟨_, hnat⟩ := asList_ok_mem h d hd
  exact asNat_ok hnat

end NetTrial
