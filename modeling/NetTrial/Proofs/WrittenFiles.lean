import NetTrial.Proofs.SpelledHeaders
/-!
# Written files are read back

What is written for a header is one of its spellings: its entries stand in a fixed order, in single
quotes, and behind it come blanks. So a file that was written is read as its header and payload.
The other way round, whatever is read from a file is a header that can be written again.
-/

namespace NetTrial

open Number Text

namespace Npy

open Json

/-! ## The tuple of a shape -/

theorem exists_numeral (before : Blanks) (n : Nat) :
    ∃ num : Numeral, num.chars = before.chars ++ digitsOf n ∧ num.value = n := by
  obtain ⟨d, ds, hdigits, hvalue, -⟩ := exists_digitsOf n
  refine ⟨⟨before, d, ds, Blanks.none⟩, ?_, hvalue⟩
  simp [Numeral.chars, Numeral.digits, Blanks.none, hdigits]

theorem exists_numerals (ns : List Nat) :
    ∃ nums : List Numeral, nums.map Numeral.chars = ns.map (fun n => ' ' :: digitsOf n) ∧
      nums.map Numeral.value = ns := by
  induction ns with
  | nil => exact ⟨[], rfl, rfl⟩
  | cons n ns ih =>
    obtain ⟨num, hchars, hvalue⟩ := exists_numeral Blanks.space n
    obtain ⟨nums, hrest, hvalues⟩ := ih
    refine ⟨num :: nums, ?_, by rw [List.map_cons, hvalue, hvalues]⟩
    rw [List.map_cons, List.map_cons, hchars, hrest]
    rfl

/-- The tuple of a shape. -/
theorem exists_tuple (shape : Shape) :
    ∃ t : Tuple, (Value.tuple t).chars = tupleChars shape ∧ t.Legal ∧ t.shape = shape := by
  cases shape with
  | nil => exact ⟨.empty Blanks.none, rfl, trivial, rfl⟩
  | cons n ns =>
    obtain ⟨num, hchars, hvalue⟩ := exists_numeral Blanks.none n
    obtain ⟨nums, hrest, hvalues⟩ := exists_numerals ns
    have hshape : ∀ close, (Tuple.numerals num nums close).shape = n :: ns := by
      intro close
      rw [Tuple.shape, Tuple.list, List.map_cons, hvalue, hvalues]
    cases ns with
    | nil =>
      have hnil : nums = [] := List.map_eq_nil_iff.mp hvalues
      refine ⟨.numerals num nums (some Blanks.none), ?_, ?_, hshape _⟩
      · simp [Value.chars_tuple, Tuple.inner, separated, closing, hnil, hchars, tupleChars, Blanks.none]
      · rw [hnil]
        rfl
    | cons m ns =>
      refine ⟨.numerals num nums none, ?_, ?_, hshape _⟩
      · rw [Value.chars_tuple, Tuple.inner, hrest, hchars]
        simp [separated, closing, tupleChars, Blanks.none, List.flatMap_map]
      · cases nums with
        | nil => cases hvalues
        | cons second nums => trivial

/-! ## The dictionary of a header -/

/-- The dictionary up to the first comma. -/
def kindChars (kind : ElementType) : List Char :=
  "\x7b'descr': '".toList ++ (descriptor kind).toList ++ ['\'']

/-- The dictionary between the first and the second comma. -/
def orderChars : List Char := " 'fortran_order': False".toList

/-- The dictionary from the second comma up to the tuple. -/
def shapeKeyChars : List Char := " 'shape': ".toList

/-- Five texts in a row, cut at the commas. -/
theorem cut_at_commas {opening kind middle tuple closing order key : List Char}
    (hm : middle = '\'' :: ',' :: (order ++ ',' :: key)) :
    opening ++ kind ++ middle ++ tuple ++ closing =
      (opening ++ kind ++ ['\'']) ++ ',' :: (order ++ ',' :: (key ++ (tuple ++ closing))) := by
  rw [hm]
  simp

theorem dictionaryChars_eq (h : Header) :
    dictionaryChars h = kindChars h.kind ++ ',' :: (orderChars ++
      ',' :: (shapeKeyChars ++ (tupleChars h.shape ++ ", \x7d".toList))) := by
  have hmiddle : "', 'fortran_order': False, 'shape': ".toList =
      '\'' :: ',' :: (orderChars ++ ',' :: shapeKeyChars) := by
    decide
  exact cut_at_commas hmiddle

theorem descriptor_mem (kind : ElementType) : descriptor kind ∈ descriptors kind :=
  ofDescriptor_eq_ok_iff.mp (ofDescriptor_descriptor kind)

/-- The entry of the element type in a written header. -/
def kindEntry (kind : ElementType) : Entry where
  lead := .none
  quote := .single
  key := keyWord "descr" descr_mem_keys
  before := .none
  after := .space
  value := .text .single ⟨(descriptor kind).toList, fun quote =>
    quote_not_mem_descriptors quote (descriptor_mem kind)⟩
  trail := .none

/-- The entry of the order in a written header. -/
def orderEntry : Entry where
  lead := .space
  quote := .single
  key := keyWord "fortran_order" order_mem_keys
  before := .none
  after := .space
  value := .truth false
  trail := .none

/-- The entry of the shape in a written header. -/
def shapeEntry (t : Tuple) : Entry where
  lead := .space
  quote := .single
  key := keyWord "shape" shape_mem_keys
  before := .none
  after := .space
  value := .tuple t
  trail := .none

/-- The dictionary that is written for a header. -/
def written (kind : ElementType) (t : Tuple) : Dictionary :=
  ⟨kindEntry kind, [orderEntry, shapeEntry t], some Blanks.space⟩

theorem written_spaced (kind : ElementType) (t : Tuple) : (written kind t).Spaced := by
  intro e he c hc
  simp only [written, Dictionary.entries, List.mem_cons, List.not_mem_nil, or_false] at he
  rcases he with he | he | he <;> rw [he] at hc
  · cases hc
  · exact List.mem_singleton.mp hc
  · exact List.mem_singleton.mp hc

theorem written_spells {h : Header} {t : Tuple} (hlegal : t.Legal) (hshape : t.shape = h.shape) :
    (written h.kind t).Spells h where
  listed := List.Perm.refl _
  told := by
    intro e he
    simp only [written, Dictionary.entries, List.mem_cons, List.not_mem_nil, or_false] at he
    rcases he with he | he | he <;> rw [he]
    · refine .kind _ _ rfl rfl ?_
      rw [String.ofList_toList]
      exact descriptor_mem h.kind
    · exact .order rfl rfl
    · exact .shape t rfl rfl hlegal hshape

theorem written_chars {h : Header} {t : Tuple}
    (ht : (Value.tuple t).chars = tupleChars h.shape) :
    (written h.kind t).chars = dictionaryChars h := by
  have hkind : '\x7b' :: (kindEntry h.kind).chars = kindChars h.kind := by
    cases h.kind <;> decide
  have horder : orderEntry.chars = orderChars := by decide
  have hshape : (shapeEntry t).chars = shapeKeyChars ++ (Value.tuple t).chars := by
    have hkey : shapeKeyChars = ' ' :: (Quote.single.around "shape".toList ++ [':', ' ']) := by
      decide
    rw [hkey]
    simp [shapeEntry, keyWord, Entry.chars, Entry.afterKey, Blanks.none, Blanks.space,
      Blanks.single]
  have hclosing : tailChars [] (some Blanks.space) = ", \x7d".toList := by decide
  rw [Dictionary.chars_eq, written, tailChars_cons, tailChars_cons, ← List.cons_append, hkind,
    horder, hshape, hclosing, ht, dictionaryChars_eq, List.append_assoc]

/-- What is written for a header spells it. -/
theorem exists_dictionary (h : Header) :
    ∃ d : Dictionary, d.chars = dictionaryChars h ∧ d.Spells h ∧ d.Spaced := by
  obtain ⟨t, hchars, hlegal, hshape⟩ := exists_tuple h.shape
  exact ⟨written h.kind t, written_chars hchars, written_spells hlegal hshape,
    written_spaced h.kind t⟩

/-! ## The header text -/

/-- The padding behind the dictionary is blank. -/
theorem exists_padding (h : Header) :
    ∃ padding : Blanks, headerChars h = dictionaryChars h ++ padding.chars := by
  refine ⟨.padding ((64 - (preambleLength + (dictionaryChars h).length + 1) % 64) % 64), ?_⟩
  rw [headerChars, List.append_assoc]
  rfl

/-- A header is read back from its text. -/
theorem readHeader_headerChars {h : Header} (hdims : ∀ d ∈ h.shape, d < wordLimit)
    (hrank : h.shape.length ≤ largestRank) {count : Nat}
    (hcount : h.shape.elementCount = .ok count) :
    readHeader (encodeChars (headerChars h)) = .ok h := by
  obtain ⟨d, hchars, hspells, hspaced⟩ := exists_dictionary h
  obtain ⟨padding, hpadding⟩ := exists_padding h
  refine readHeader_of_legible (decodeChars?_encodeChars _) ?_
  rw [hpadding, ← hchars, d.dropTrailingBlanks_chars]
  exact hspells.legible hspaced hdims hrank hcount

theorem headerChars_ne_nil (h : Header) : encodeChars (headerChars h) ≠ [] := by
  intro hnil
  have hdecode := decodeChars?_encodeChars (headerChars h)
  rw [hnil] at hdecode
  cases hdecode

/-! ## The file -/

theorem littleEndian_lengthBytes {n : Nat} (h : n < 65536) : littleEndian (lengthBytes n) = n := by
  simp only [lengthBytes, littleEndian, UInt8.toNat_ofNat']
  omega

/-- A header that is short enough is framed by its length. -/
theorem framed_lengthBytes {header payload : Bytes} (hne : header ≠ [])
    (hlong : header.length ≤ longestWritten) :
    Framed (magic ++ [1, 0] ++ lengthBytes header.length ++ header ++ payload) header payload := by
  have hmost : longestWritten = 65535 := rfl
  have hlongest : longestHeader = 65536 := rfl
  exact
    { laid := ⟨1, lengthBytes header.length, rfl, .inl rfl, rfl,
        littleEndian_lengthBytes (by omega)⟩
      nonempty := hne
      budget := by omega }

/-- What is written, and when. -/
theorem write_eq_ok_iff {h : Header} {payload file : Bytes} :
    write h payload = .ok file ↔
      h.shape.length ≤ largestRank ∧
        (∃ count, checkPayload h.shape payload.length h.kind = .ok count) ∧
        (encodeChars (headerChars h)).length ≤ longestWritten ∧
        file = magic ++ [1, 0] ++ lengthBytes (encodeChars (headerChars h)).length ++
          encodeChars (headerChars h) ++ payload := by
  rw [write]
  constructor
  · intro hw
    split at hw
    · cases hw
    next hrank =>
    split at hw
    · cases hw
    next count hpayload =>
    simp only at hw
    split at hw
    · cases hw
    next hlong =>
    exact ⟨Nat.not_lt.mp hrank, ⟨count, hpayload⟩, Nat.not_lt.mp hlong, (Except.ok.inj hw).symm⟩
  · rintro ⟨hrank, ⟨count, hpayload⟩, hlong, hfile⟩
    simp only [if_neg (Nat.not_lt.mpr hrank), hpayload, if_neg (Nat.not_lt.mpr hlong), hfile]

/-- A file that was written is read as its header and the bytes of its elements. -/
theorem read_write {h : Header} {payload file : Bytes} (hdims : ∀ d ∈ h.shape, d < wordLimit)
    (hw : write h payload = .ok file) : read file = .ok (h, payload) := by
  obtain ⟨hrank, ⟨count, hpayload⟩, hlong, hfile⟩ := (write_eq_ok_iff).mp hw
  obtain ⟨hcount, -, -⟩ := checkPayload_eq_ok_iff.mp hpayload
  rw [hfile]
  exact read_eq_ok_iff.mpr ⟨_, count, framed_lengthBytes (headerChars_ne_nil h) hlong,
    readHeader_headerChars hdims hrank hcount, hpayload⟩

/-! ## What a header can tell -/

/-- What is read from a header text can be written in one. -/
structure Header.Writable (h : Header) : Prop where
  /-- The dimensions are words. -/
  dims : ∀ d ∈ h.shape, d < wordLimit
  /-- There are not too many. -/
  rank : h.shape.length ≤ largestRank

theorem SpellsDimension.lt {token : List Char} {d : Nat} (hspells : SpellsDimension token d) :
    d < wordLimit := by
  rcases hspells with ⟨ds, -, -, -, hlt⟩ | ⟨digits, -, ds, -, -, -, hlt⟩
  · exact hlt
  · exact hlt

/-- The dimensions that a tuple spells are words. -/
theorem SpellsShape.lt {inner : List Char} {shape : Shape} (hspells : SpellsShape inner shape) :
    ∀ d ∈ shape, d < wordLimit := by
  obtain ⟨htokens, -⟩ := hspells
  generalize tupleEntries inner = tokens at htokens
  induction htokens with
  | nil =>
    intro d hd
    cases hd
  | cons hdimension _ ih =>
    intro d hd
    rcases List.mem_cons.mp hd with hd | hd
    · exact hd ▸ hdimension.lt
    · exact ih d hd

theorem Legible.writable {text : List Char} {h : Header} (hlegible : Legible text h) :
    h.Writable := by
  obtain ⟨inner, rest, -, hspells, -⟩ := hlegible.shape
  exact ⟨hspells.lt, hlegible.rank⟩

/-- What is read from a file is a header and the payload that its shape asks for. -/
theorem read_gives (bytes : Bytes) : Gives (read bytes) fun r =>
    r.1.Writable ∧ ∃ count, checkPayload r.1.shape r.2.length r.1.kind = .ok count := by
  constructor
  rintro ⟨h, body⟩ hread
  obtain ⟨header, count, -, hheader, hpayload⟩ := read_eq_ok_iff.mp hread
  obtain ⟨text, -, hlegible⟩ := readHeader_eq_ok_iff.mp hheader
  exact ⟨hlegible.writable, count, hpayload⟩

end Npy

namespace Tensor

variable {t : Tensor}

/-- A tensor is read back from its file, whatever the format. -/
theorem ofFile_toFile (h : t.Representable) {format : DatasetFormat} {file : Bytes}
    (hw : t.toFile format = .ok file) : ofFile file format t.shape t.elementType = .ok t := by
  cases format with
  | raw =>
    cases hw
    exact decode_toBytes h.count h.bytes
  | npy =>
    have hread := Npy.read_write h.dims hw
    rw [ofFile, Npy.readTensor, hread]
    exact ofPayload_toBytes h.count

/-- The dimensions of a tensor that was read from an npy file are words. -/
theorem ofFile_npy_gives (bytes : Bytes) (shape : Shape) (kind : ElementType) :
    Gives (Tensor.ofFile bytes .npy shape kind) fun t => ∀ d ∈ t.shape, d < wordLimit := by
  rw [Tensor.ofFile, Npy.readTensor]
  refine .bind ⟨fun {r} hr => ?_⟩
  obtain ⟨header, body⟩ := r
  refine ⟨fun {t} ht => ?_⟩
  rw [(Tensor.ofPayload_shape header.shape header.kind body).of_ok ht]
  exact ((Npy.read_gives bytes).of_ok hr).1.dims

end Tensor

end NetTrial
