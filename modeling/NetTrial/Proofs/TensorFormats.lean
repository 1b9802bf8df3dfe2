import NetTrial.Proofs.WrittenFiles
/-!
# Tensor files in both formats

A raw file can always be written. An npy file can be written when there are not too many
dimensions: however large they are, the header stays far below its budget. The padding puts the
elements at a multiple of 64 bytes. Whatever file is read, the header and payload found in it can
be written again, though not always to the same bytes.
-/

namespace NetTrial

open Number Text

namespace Text

/-- Characters that take a single byte each. -/
def AreBytes (cs : List Char) : Prop := ∀ c ∈ cs, c.utf8Size = 1

instance (cs : List Char) : Decidable (AreBytes cs) :=
  List.decidableBAll (fun c : Char => c.utf8Size = 1) cs

theorem AreBytes.append {front back : List Char} (hf : AreBytes front) (hb : AreBytes back) :
    AreBytes (front ++ back) := by
  intro c hc
  rcases List.mem_append.mp hc with hc | hc
  · exact hf c hc
  · exact hb c hc

theorem AreBytes.length_encodeChars {cs : List Char} (h : AreBytes cs) :
    (encodeChars cs).length = cs.length := by
  induction cs with
  | nil => rfl
  | cons c cs ih =>
    have hhead : (String.utf8EncodeChar c).length = 1 := by
      rw [String.length_utf8EncodeChar, h c List.mem_cons_self]
    have htail := ih fun d hd => h d (List.mem_cons_of_mem c hd)
    rw [encodeChars] at htail ⊢
    rw [List.flatMap_cons, List.length_append, hhead, htail, List.length_cons, Nat.add_comm]

end Text

namespace Npy

/-! ## The characters of a tuple -/

theorem digitOf_of_mem_digitsOf {n : Nat} {c : Char} (h : c ∈ digitsOf n) :
    ∃ d, c = digitOf d := by
  obtain ⟨d, ds, hdigits, -⟩ := exists_digitsOf n
  rw [hdigits] at h
  obtain ⟨e, -, he⟩ := List.mem_map.mp h
  exact ⟨e, he.symm⟩

/-- What stands between the brackets of a tuple. -/
def innerChars : Shape → List Char
  | [] => []
  | [d] => digitsOf d ++ [',']
  | d :: ds => digitsOf d ++ ds.flatMap fun n => ',' :: ' ' :: digitsOf n

theorem innerChars_cons_cons (d e : Nat) (ds : List Nat) :
    innerChars (d :: e :: ds) =
      digitsOf d ++ (e :: ds).flatMap fun n => ',' :: ' ' :: digitsOf n := rfl

theorem tupleChars_eq (shape : Shape) :
    tupleChars shape = '(' :: (innerChars shape ++ [')']) := by
  cases shape with
  | nil => rfl
  | cons d ds =>
    cases ds with
    | nil => simp [tupleChars, innerChars]
    | cons e ds => simp [tupleChars, innerChars]

theorem mem_innerChars {shape : Shape} {c : Char} (h : c ∈ innerChars shape) :
    c = ',' ∨ c = ' ' ∨ ∃ d, c = digitOf d := by
  cases shape with
  | nil => cases h
  | cons d ds =>
    cases ds with
    | nil =>
      rw [innerChars, List.mem_append] at h
      rcases h with h | h
      · exact Or.inr (Or.inr (digitOf_of_mem_digitsOf h))
      · exact Or.inl (List.mem_singleton.mp h)
    | cons e ds =>
      rw [innerChars_cons_cons, List.mem_append] at h
      rcases h with h | h
      · exact Or.inr (Or.inr (digitOf_of_mem_digitsOf h))
      · obtain ⟨n, -, hn⟩ := List.mem_flatMap.mp h
        rcases List.mem_cons.mp hn with rfl | hn
        · exact Or.inl rfl
        · rcases List.mem_cons.mp hn with rfl | hn
          · exact Or.inr (Or.inl rfl)
          · exact Or.inr (Or.inr (digitOf_of_mem_digitsOf hn))

theorem areBytes_innerChars (shape : Shape) : AreBytes (innerChars shape) := by
  have hdigit : ∀ d, (digitOf d).utf8Size = 1 := by decide
  intro c hc
  rcases mem_innerChars hc with rfl | rfl | ⟨d, rfl⟩
  · rfl
  · rfl
  · exact hdigit d

/-! ## The length of a header -/

/-- A word takes at most twenty digits. -/
theorem length_digitsOf_le {n : Nat} (h : n < wordLimit) : (digitsOf n).length ≤ 20 := by
  rw [digitsOf, Nat.length_toDigits_le_iff (by decide) (by decide)]
  exact Nat.lt_trans h (by decide)

/-- Each dimension takes at most its digits, a comma and a blank. -/
theorem length_innerChars_le {shape : Shape} (h : ∀ d ∈ shape, d < wordLimit) :
    (innerChars shape).length ≤ 22 * shape.length := by
  have hlater : ∀ ds : List Nat, (∀ d ∈ ds, d < wordLimit) →
      (ds.flatMap fun n => ',' :: ' ' :: digitsOf n).length ≤ 22 * ds.length := by
    intro ds hds
    induction ds with
    | nil => exact Nat.le_refl 0
    | cons d ds ih =>
      have hd := length_digitsOf_le (hds d List.mem_cons_self)
      have hrest := ih fun e he => hds e (List.mem_cons_of_mem d he)
      simp only [List.flatMap_cons, List.cons_append, List.length_cons, List.length_append]
      omega
  cases shape with
  | nil => exact Nat.le_refl 0
  | cons d ds =>
    have hd := length_digitsOf_le (h d List.mem_cons_self)
    cases ds with
    | nil =>
      simp only [innerChars, List.length_append, List.length_cons, List.length_nil]
      omega
    | cons e ds =>
      have hrest := hlater (e :: ds) fun n hn => h n (List.mem_cons_of_mem d hn)
      rw [innerChars_cons_cons, List.length_append, List.length_cons]
      omega

/-- The dictionary up to the tuple. -/
def openingChars (kind : ElementType) : List Char :=
  "\x7b'descr': '".toList ++ (descriptor kind).toList ++
    "', 'fortran_order': False, 'shape': ".toList

/-- The dictionary behind the tuple. -/
def closingChars : List Char := ", \x7d".toList

theorem dictionaryChars_around (h : Header) :
    dictionaryChars h = openingChars h.kind ++ tupleChars h.shape ++ closingChars := rfl

theorem openingChars_written (kind : ElementType) :
    (openingChars kind).length = 50 ∧ AreBytes (openingChars kind) := by
  cases kind <;> decide

theorem closingChars_written : closingChars.length = 3 ∧ AreBytes closingChars := by decide

theorem length_dictionaryChars (h : Header) :
    (dictionaryChars h).length = (innerChars h.shape).length + 55 := by
  rw [dictionaryChars_around, List.length_append, List.length_append,
    (openingChars_written h.kind).1, closingChars_written.1, tupleChars_eq]
  simp only [List.length_cons, List.length_append, List.length_nil]
  omega

theorem areBytes_dictionaryChars (h : Header) : AreBytes (dictionaryChars h) := by
  have hopen : AreBytes ['('] := by decide
  have hclose : AreBytes [')'] := by decide
  have htuple : AreBytes (tupleChars h.shape) := by
    rw [tupleChars_eq]
    exact hopen.append ((areBytes_innerChars h.shape).append hclose)
  rw [dictionaryChars_around]
  exact ((openingChars_written h.kind).2.append htuple).append closingChars_written.2

/-- The header text: what is padded, and how far. -/
theorem length_headerChars (h : Header) :
    ∃ padding < 64, (encodeChars (headerChars h)).length =
      (innerChars h.shape).length + 56 + padding ∧
      64 ∣ preambleLength + (encodeChars (headerChars h)).length := by
  have hbytes : AreBytes (headerChars h) := by
    have hblank : ∀ count, AreBytes (List.replicate count ' ') := by
      intro count c hc
      rw [List.eq_of_mem_replicate hc]
      rfl
    have hnewline : AreBytes ['\n'] := by decide
    exact ((areBytes_dictionaryChars h).append (hblank _)).append hnewline
  have hpreamble : preambleLength = 10 := rfl
  rw [hbytes.length_encodeChars, headerChars]
  simp only [List.length_append, List.length_replicate, List.length_cons, List.length_nil,
    length_dictionaryChars, hpreamble]
  refine ⟨(64 - (10 + ((innerChars h.shape).length + 55) + 1) % 64) % 64,
    Nat.mod_lt _ (by decide), ?_, ?_⟩
  · omega
  · omega

/-! ## Writing -/

/-- A header that can be written and a payload that its shape asks for make a file. The payload
comes last and starts at a multiple of 64 bytes. -/
theorem write_ok {h : Header} {payload : Bytes} (hw : h.Writable) {count : Nat}
    (hp : checkPayload h.shape payload.length h.kind = .ok count) :
    ∃ front, write h payload = .ok (front ++ payload) ∧ 64 ∣ front.length := by
  obtain ⟨padding, hpadding, hlength, haligned⟩ := length_headerChars h
  have hinner := length_innerChars_le hw.dims
  have hrank := hw.rank
  have hbudget : (encodeChars (headerChars h)).length ≤ longestWritten := by
    have hmost : largestRank = 32 := rfl
    have hlongest : longestWritten = 65535 := rfl
    omega
  refine ⟨magic ++ [1, 0] ++ lengthBytes (encodeChars (headerChars h)).length ++
    encodeChars (headerChars h), ?_, ?_⟩
  · exact write_eq_ok_iff.mpr ⟨hw.rank, ⟨count, hp⟩, hbudget, rfl⟩
  · generalize encodeChars (headerChars h) = header at haligned
    have hpreamble : (magic ++ [1, 0] ++ lengthBytes header.length).length = preambleLength := rfl
    rw [List.length_append, hpreamble]
    exact haligned

/-- What was read can be written again, and is read from that as before. -/
theorem read_again {file : Bytes} {h : Header} {body : Bytes} (hr : read file = .ok (h, body)) :
    ∃ file', write h body = .ok file' ∧ read file' = .ok (h, body) := by
  obtain ⟨hw, count, hp⟩ := (read_gives file).of_ok hr
  obtain ⟨front, hwritten, -⟩ := write_ok hw hp
  exact ⟨_, hwritten, read_write hw.dims hwritten⟩

end Npy

namespace Tensor

variable {t : Tensor}

/-- A tensor can be written as npy when there are not too many dimensions. -/
theorem toFile_npy_iff (h : t.Representable) :
    (∃ file, t.toFile .npy = .ok file) ↔ t.shape.length ≤ Npy.largestRank := by
  constructor
  · rintro ⟨file, hf⟩
    exact (Npy.write_eq_ok_iff.mp hf).1
  · intro hrank
    have hp := checkPayload_of_count h.count t.elements.length_toBytes h.bytes
    obtain ⟨front, hf, -⟩ := Npy.write_ok (h := ⟨t.shape, t.elementType⟩) ⟨h.dims, hrank⟩ hp
    exact ⟨_, hf⟩

/-- The elements of an npy file are all that follows its header, from a multiple of 64 bytes on. -/
theorem toFile_npy_aligned (h : t.Representable) {file : Bytes} (hf : t.toFile .npy = .ok file) :
    ∃ front, file = front ++ t.elements.toBytes ∧ 64 ∣ front.length := by
  have hp := checkPayload_of_count h.count t.elements.length_toBytes h.bytes
  have hw : Npy.Header.Writable ⟨t.shape, t.elementType⟩ :=
    ⟨h.dims, (toFile_npy_iff h).mp ⟨file, hf⟩⟩
  obtain ⟨front, hwritten, haligned⟩ := Npy.write_ok hw hp
  have hsame : (Except.ok file : Except DatasetError Bytes) =
      .ok (front ++ t.elements.toBytes) := hf.symm.trans hwritten
  cases hsame
  exact ⟨front, rfl, haligned⟩

/-- The npy file of a tensor is read as that tensor, whatever shape and kind are asked for. -/
theorem ofFile_npy (h : t.Representable) {file : Bytes} (hf : t.toFile .npy = .ok file)
    (shape : Shape) (kind : ElementType) : ofFile file .npy shape kind = .ok t :=
  ofFile_toFile h hf

/-- Tensor files are read as what was written, in both formats. -/
theorem files_read_back :
    (∀ t : Tensor, t.Representable →
      (∃ file, t.toFile .raw = .ok file ∧ ofFile file .raw t.shape t.elementType = .ok t) ∧
      ((∃ file, t.toFile .npy = .ok file) ↔ t.shape.length ≤ 32) ∧
      ∀ file, t.toFile .npy = .ok file →
        Npy.read file = .ok (⟨t.shape, t.elementType⟩, t.elements.toBytes) ∧
        (∃ front, file = front ++ t.elements.toBytes ∧ 64 ∣ front.length) ∧
        ∀ shape kind, ofFile file .npy shape kind = .ok t) ∧
    ∀ file header body, Npy.read file = .ok (header, body) →
      ∃ file', Npy.write header body = .ok file' ∧ Npy.read file' = .ok (header, body) := by
  refine ⟨fun t h => ⟨⟨_, rfl, ofFile_toFile h rfl⟩, toFile_npy_iff h, fun file hf => ?_⟩,
    fun file header body => Npy.read_again⟩
  exact ⟨Npy.read_write h.dims hf, toFile_npy_aligned h hf, ofFile_npy h hf⟩

/-- A tensor without elements along the largest dimension there is. -/
def widest : Tensor := ⟨[0, 18446744073709551615], .u8 []⟩

theorem widest_representable : widest.Representable := by
  refine ⟨rfl, ?_, by decide⟩
  decide

/-- A file of the second version whose keys stand in another order and in double quotes, and
whose dimension has a sign and a leading zero. -/
def foreignFile : Bytes :=
  Npy.magic ++ [2, 0, 57, 0, 0, 0] ++
    encodeChars "\x7b\"shape\": (+01,), \"fortran_order\": False, \"descr\": \"<f4\"\x7d".toList ++
    [0, 0, 224, 64]

theorem foreignFile_read : Npy.read foreignFile = .ok (⟨[1], .f32⟩, [0, 0, 224, 64]) := by
  rfl

theorem widest_read_back :
    widest.Representable ∧ (∃ file, widest.toFile .npy = .ok file ∧
      ∀ shape kind, ofFile file .npy shape kind = .ok widest) ∧
    Npy.read foreignFile = .ok (⟨[1], .f32⟩, [0, 0, 224, 64]) ∧
    ∃ file, Npy.write ⟨[1], .f32⟩ [0, 0, 224, 64] = .ok file ∧
      Npy.read file = .ok (⟨[1], .f32⟩, [0, 0, 224, 64]) := by
  obtain ⟨hwritten, hread⟩ := files_read_back
  obtain ⟨-, hiff, hback⟩ := hwritten widest widest_representable
  obtain ⟨file, hfile⟩ := hiff.mpr (by decide)
  exact ⟨widest_representable, ⟨file, hfile, (hback file hfile).2.2⟩, foreignFile_read,
    hread foreignFile _ _ foreignFile_read⟩

end Tensor

end NetTrial
