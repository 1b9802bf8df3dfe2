import Mathlib.Tactic.Ring
import NetTrial.Artifact.Summary
/-!
# Tables of layers

The count of layers and the sizes of their bodies are what the file says. The table is read after
its length is known to be in the file, so no word is read behind the end and no checked step fails:
a count is below `2 ^ 32`, and so many sizes below `2 ^ 32` add up to a word. The file is compared
with one more sum, of header, table and bodies, and this one is not checked. It is a word too,
unless the table has nearly `2 ^ 32` entries with nearly `2 ^ 32` bytes each. A file that holds such
a table is accepted although its bodies do not fit it.
-/

namespace NetTrial.Artifact

open Text

variable {bytes rest : Bytes} {index count entry total : Nat} {s : Summary}

/-- Words of a file are below this limit. -/
def fieldLimit : Nat := 0x100000000

/-! ## Words of a file -/

/-- The number that four bytes spell, counted in words from the start of a file. -/
def wordAt (bytes : Bytes) (index : Nat) : Nat := Npy.littleEndian ((bytes.drop (4 * index)).take 4)

/-- A number has as many digits as there are bytes. -/
theorem littleEndian_lt (field : Bytes) : Npy.littleEndian field < 256 ^ field.length := by
  induction field with
  | nil => decide
  | cons b field ih =>
    have hbyte : b.toNat < 256 := b.toNat_lt
    rw [Npy.littleEndian, List.length_cons, Nat.pow_succ]
    omega

theorem wordAt_lt (bytes : Bytes) (index : Nat) : wordAt bytes index < fieldLimit := by
  have hlt := littleEndian_lt ((bytes.drop (4 * index)).take 4)
  have hlength : ((bytes.drop (4 * index)).take 4).length ≤ 4 := List.length_take_le ..
  have hpow : 256 ^ ((bytes.drop (4 * index)).take 4).length ≤ 256 ^ 4 :=
    Nat.pow_le_pow_right (by decide) hlength
  exact Nat.lt_of_lt_of_le hlt hpow

/-- A word is read when its four bytes are in the file. -/
theorem headerWord_eq (bytes : Bytes) (index : Nat) : headerWord bytes index =
    if 4 * index + 4 ≤ bytes.length then .ok (wordAt bytes index) else .error .headerTruncated := by
  have hlength : ((bytes.drop (4 * index)).take 4).length = 4 ↔ 4 * index + 4 ≤ bytes.length := by
    rw [List.length_take, List.length_drop]
    omega
  by_cases h : 4 * index + 4 ≤ bytes.length
  · rw [if_pos h, headerWord, word?, if_pos (hlength.mpr h), wordAt]
  · rw [if_neg h, headerWord, word?, if_neg (hlength.not.mpr h)]

theorem headerWord_of_le (h : 4 * index + 4 ≤ bytes.length) :
    headerWord bytes index = .ok (wordAt bytes index) := by
  rw [headerWord_eq, if_pos h]

theorem headerWord_of_lt (h : bytes.length < 4 * index + 4) :
    headerWord bytes index = .error .headerTruncated := by
  rw [headerWord_eq, if_neg (by omega)]

/-- Words behind a header are counted on. -/
theorem wordAt_append_add {front : Bytes} {skip : Nat} (h : front.length = 4 * skip) :
    wordAt (front ++ rest) (skip + index) = wordAt rest index := by
  rw [wordAt, wordAt, Nat.mul_add, ← h, List.drop_append, List.drop_eq_nil_of_le (by omega),
    List.nil_append, Nat.add_sub_cancel_left]

/-! ## The exact sums -/

/-- The count of layers that a file declares. -/
def declaredCount (bytes : Bytes) : Nat := wordAt bytes 3

/-- The entry of the table at an index. -/
def layerAt (bytes : Bytes) (entry : Nat) : Layer :=
  ⟨wordAt bytes (8 + entry * 2), wordAt bytes (8 + entry * 2 + 1)⟩

/-- The size of all bodies that a table declares, without a limit. -/
def bodiesSize (layers : List Layer) : Nat := (layers.map Layer.bodySize).sum

/-- What the words of a file say. -/
def summaryOf (bytes : Bytes) : Summary where
  version := wordAt bytes 0
  flags := wordAt bytes 1
  arch := wordAt bytes 2
  maxStartAddress := wordAt bytes 4
  mainMemUsage := wordAt bytes 5
  mainMemOutputAddress := wordAt bytes 6
  mainMemOutputSize := wordAt bytes 7
  layers := (List.range (declaredCount bytes)).map (layerAt bytes)

/-- Where the table ends. -/
def tableEnd (bytes : Bytes) : Nat := headerLength + 8 * declaredCount bytes

/-- Where the declared bodies end, without a limit. -/
def bodiesEnd (bytes : Bytes) : Nat := tableEnd bytes + bodiesSize (summaryOf bytes).layers

/-- A file has the known version and is as long as header, table and bodies together. -/
structure WellFormed (bytes : Bytes) : Prop where
  /-- There is a whole header. -/
  header : headerLength ≤ bytes.length
  /-- The version is the known one. -/
  version : wordAt bytes 0 = knownVersion
  /-- There is a whole table. -/
  table : tableEnd bytes ≤ bytes.length
  /-- The declared bodies are in the file. -/
  bodies : bodiesEnd bytes ≤ bytes.length

/-- The bodies of a whole table end behind the file, and what a word holds of this end is in the
file again. -/
structure Wraps (bytes : Bytes) : Prop where
  /-- The version is the known one. -/
  version : wordAt bytes 0 = knownVersion
  /-- There is a whole table. -/
  table : tableEnd bytes ≤ bytes.length
  /-- The declared bodies are not in the file. -/
  exact : bytes.length < bodiesEnd bytes
  /-- The computed end is. -/
  computed : bodiesEnd bytes % wordLimit ≤ bytes.length

@[simp] theorem length_layers (bytes : Bytes) :
    (summaryOf bytes).layers.length = declaredCount bytes := by
  rw [summaryOf, List.length_map, List.length_range]

theorem declaredCount_lt (bytes : Bytes) : declaredCount bytes < fieldLimit := wordAt_lt bytes 3

theorem bodiesSize_cons (layer : Layer) (layers : List Layer) :
    bodiesSize (layer :: layers) = layer.bodySize + bodiesSize layers := by
  rw [bodiesSize, List.map_cons, List.sum_cons, bodiesSize]

/-- Entries of a file declare so much each. -/
theorem bodiesSize_layerAt_le (bytes : Bytes) (entries : List Nat) :
    bodiesSize (entries.map (layerAt bytes)) ≤ entries.length * (fieldLimit - 1) := by
  induction entries with
  | nil => exact Nat.le_refl 0
  | cons entry entries ih =>
    have hsize : (layerAt bytes entry).bodySize < fieldLimit := wordAt_lt bytes _
    rw [List.map_cons, bodiesSize_cons, List.length_cons, Nat.succ_mul]
    omega

theorem bodiesSize_layers_le (bytes : Bytes) :
    bodiesSize (summaryOf bytes).layers ≤ declaredCount bytes * (fieldLimit - 1) := by
  have hle := bodiesSize_layerAt_le bytes (List.range (declaredCount bytes))
  rwa [List.length_range] at hle

/-- An end that is no word takes nearly as many entries as can be counted. -/
theorem tableEnd_of_wordLimit_le (h : wordLimit ≤ bodiesEnd bytes) :
    2 ^ 35 - 16 ≤ tableEnd bytes := by
  have hbodies := bodiesSize_layers_le bytes
  simp only [bodiesEnd, tableEnd, headerLength, fieldLimit, wordLimit] at h hbodies ⊢
  omega

/-- A file short of 32 gibibytes does not wrap. -/
theorem not_wraps_of_short (h : bytes.length < 2 ^ 35 - 16) : ¬ Wraps bytes := by
  intro hwraps
  have hword : bodiesEnd bytes < wordLimit := by
    by_contra hlarge
    have hend := tableEnd_of_wordLimit_le (Nat.le_of_not_lt hlarge)
    have htable := hwraps.table
    omega
  have hcomputed := hwraps.computed
  have hexact := hwraps.exact
  rw [Nat.mod_eq_of_lt hword] at hcomputed
  omega

/-! ## Reading the table -/

/-- Entries that are in the file are read as they stand there, and their sizes are added up. -/
theorem readLayers_eq (htable : 4 * (8 + (entry + count) * 2) ≤ bytes.length)
    (htotal : total + count * (fieldLimit - 1) < wordLimit) :
    readLayers bytes count entry total =
      .ok ((List.range' entry count).map (layerAt bytes),
        total + bodiesSize ((List.range' entry count).map (layerAt bytes))) := by
  induction count generalizing entry total with
  | zero => rfl
  | succ count ih =>
    have hsize : wordAt bytes (8 + entry * 2 + 1) < fieldLimit := wordAt_lt bytes _
    rw [Nat.succ_mul] at htotal
    have hkind : headerWord bytes (8 + entry * 2) = .ok (wordAt bytes (8 + entry * 2)) :=
      headerWord_of_le (by omega)
    have hbody : headerWord bytes (8 + entry * 2 + 1) = .ok (wordAt bytes (8 + entry * 2 + 1)) :=
      headerWord_of_le (by omega)
    have hadd : checkedAdd total (wordAt bytes (8 + entry * 2 + 1)) =
        some (total + wordAt bytes (8 + entry * 2 + 1)) :=
      checkedAdd_eq_some_iff.mpr ⟨rfl, by omega⟩
    have hrest := @ih (entry + 1) (total + wordAt bytes (8 + entry * 2 + 1)) (by omega) (by omega)
    have hbase : headerLength / 4 = 8 := rfl
    simp only [readLayers, hbase, hkind, hbody, hadd, hrest, bind, Except.bind, pure, Except.pure,
      List.range'_succ, List.map_cons, bodiesSize_cons, layerAt]
    rw [Nat.add_assoc total]

/-- The table of a file is read whole: no step of it fails. -/
theorem readLayers_table (h : tableEnd bytes ≤ bytes.length) :
    readLayers bytes (declaredCount bytes) 0 0 =
      .ok ((summaryOf bytes).layers, bodiesSize (summaryOf bytes).layers) := by
  have hcount := declaredCount_lt bytes
  have hwhole : 4 * (8 + (0 + declaredCount bytes) * 2) ≤ bytes.length := by
    simp only [tableEnd, headerLength] at h
    omega
  have hword : 0 + declaredCount bytes * (fieldLimit - 1) < wordLimit := by
    simp only [fieldLimit, wordLimit] at hcount ⊢
    omega
  have hread := readLayers_eq hwhole hword
  rwa [Nat.zero_add, ← List.range_eq_range'] at hread

/-! ## What is accepted -/

/-- The answer for a file: where it ends too early, and what it says when it does not. The faults of
the checked steps are not among the answers. -/
theorem inspect_eq (bytes : Bytes) : inspect bytes =
    if bytes.length < 4 then .error .headerTruncated
    else if wordAt bytes 0 ≠ knownVersion then .error .version
    else if bytes.length < 16 then .error .headerTruncated
    else if bytes.length < tableEnd bytes then .error .tableTruncated
    else if bytes.length < bodiesEnd bytes % wordLimit then .error .bodiesTooLarge
    else .ok (summaryOf bytes) := by
  have hcount := declaredCount_lt bytes
  by_cases hfirst : bytes.length < 4
  · rw [if_pos hfirst, inspect, headerWord_of_lt (by omega)]
    rfl
  have h0 : headerWord bytes 0 = .ok (wordAt bytes 0) := headerWord_of_le (by omega)
  by_cases hversion : wordAt bytes 0 ≠ knownVersion
  · rw [if_neg hfirst, if_pos hversion, inspect, h0]
    simp only [bind, Except.bind, if_pos hversion]
  by_cases hfourth : bytes.length < 16
  · have hthird : bytes.length < 4 * 3 + 4 := hfourth
    rw [if_neg hfirst, if_neg hversion, if_pos hfourth, inspect, h0]
    simp only [bind, Except.bind, if_neg hversion, headerWord_of_lt hthird]
  have h3 : headerWord bytes 3 = .ok (declaredCount bytes) := headerWord_of_le (by omega)
  have hword : ¬ wordLimit ≤ declaredCount bytes := by
    simp only [fieldLimit, wordLimit] at hcount ⊢
    omega
  have hwords : checkedMul (declaredCount bytes) 2 = some (declaredCount bytes * 2) :=
    checkedMul_eq_some_iff.mpr ⟨rfl, by simp only [fieldLimit, wordLimit] at hcount ⊢; omega⟩
  have htable : wrappingAdd headerLength (saturatingMul (declaredCount bytes * 2) 4) =
      tableEnd bytes := by
    simp only [wrappingAdd, saturatingMul, tableEnd, headerLength, fieldLimit, wordLimit]
      at hcount ⊢
    omega
  have hneeded : wrappingAdd (wrappingAdd headerLength (wrappingMul (declaredCount bytes * 2) 4))
      (bodiesSize (summaryOf bytes).layers) = bodiesEnd bytes % wordLimit := by
    simp only [wrappingAdd, wrappingMul, bodiesEnd, tableEnd, headerLength, fieldLimit, wordLimit]
      at hcount ⊢
    omega
  rw [if_neg hfirst, if_neg hversion, if_neg hfourth, inspect, h0]
  by_cases htruncated : bytes.length < tableEnd bytes
  · simp only [bind, Except.bind, if_neg hversion, h3, pure, Except.pure, if_neg hword, hwords,
      htable, if_pos htruncated]
  have hwhole : tableEnd bytes ≤ bytes.length := Nat.le_of_not_lt htruncated
  have hheader : 32 ≤ bytes.length := by
    simp only [tableEnd, headerLength] at hwhole
    omega
  rw [if_neg htruncated]
  by_cases hbodies : bytes.length < bodiesEnd bytes % wordLimit
  · simp only [bind, Except.bind, if_neg hversion, h3, pure, Except.pure, if_neg hword, hwords,
      htable, if_neg htruncated, readLayers_table hwhole, hneeded, if_pos hbodies]
  · have hread : ∀ index < 8, headerWord bytes index = .ok (wordAt bytes index) :=
      fun index hindex => headerWord_of_le (by omega)
    simp only [bind, Except.bind, if_neg hversion, h3, pure, Except.pure, if_neg hword, hwords,
      htable, if_neg htruncated, readLayers_table hwhole, hneeded, if_neg hbodies,
      hread 1 (by decide), hread 2 (by decide), hread 4 (by decide), hread 5 (by decide),
      hread 6 (by decide), hread 7 (by decide)]
    rfl

/-- A file is accepted exactly when its table is whole and what a word holds of the end of its
bodies is in the file, and then its words are what is told. -/
theorem inspect_eq_ok_iff : inspect bytes = .ok s ↔
    (wordAt bytes 0 = knownVersion ∧ tableEnd bytes ≤ bytes.length ∧
      bodiesEnd bytes % wordLimit ≤ bytes.length) ∧ s = summaryOf bytes := by
  have hheader : headerLength ≤ tableEnd bytes := Nat.le_add_right ..
  have hlength : headerLength = 32 := rfl
  rw [inspect_eq]
  by_cases hfirst : bytes.length < 4
  · rw [if_pos hfirst]
    exact ⟨fun h => (nomatch h), fun h => by omega⟩
  by_cases hversion : wordAt bytes 0 ≠ knownVersion
  · rw [if_neg hfirst, if_pos hversion]
    exact ⟨fun h => (nomatch h), fun h => absurd h.1.1 hversion⟩
  rw [if_neg hfirst, if_neg hversion]
  by_cases hfourth : bytes.length < 16
  · rw [if_pos hfourth]
    exact ⟨fun h => (nomatch h), fun h => by omega⟩
  rw [if_neg hfourth]
  by_cases htable : bytes.length < tableEnd bytes
  · rw [if_pos htable]
    exact ⟨fun h => (nomatch h), fun h => by omega⟩
  rw [if_neg htable]
  by_cases hbodies : bytes.length < bodiesEnd bytes % wordLimit
  · rw [if_pos hbodies]
    exact ⟨fun h => (nomatch h), fun h => by omega⟩
  rw [if_neg hbodies]
  exact ⟨fun h => ⟨⟨not_not.mp hversion, Nat.le_of_not_lt htable, Nat.le_of_not_lt hbodies⟩,
    (Except.ok.inj h).symm⟩, fun h => congrArg Except.ok h.2.symm⟩

/-- A well-formed file is accepted. -/
theorem WellFormed.inspect (h : WellFormed bytes) : inspect bytes = .ok (summaryOf bytes) :=
  (inspect_eq_ok_iff).mpr ⟨⟨h.version, h.table, Nat.le_trans (Nat.mod_le ..) h.bodies⟩, rfl⟩

/-- A file that is not well-formed is accepted exactly when it wraps. -/
theorem wraps_iff : Wraps bytes ↔ inspect bytes = .ok (summaryOf bytes) ∧ ¬ WellFormed bytes := by
  constructor
  · intro h
    refine ⟨(inspect_eq_ok_iff).mpr ⟨⟨h.version, h.table, h.computed⟩, rfl⟩, fun hformed => ?_⟩
    have hexact := h.exact
    have hbodies := hformed.bodies
    omega
  · intro ⟨hok, hformed⟩
    obtain ⟨⟨hversion, htable, hcomputed⟩, -⟩ := (inspect_eq_ok_iff).mp hok
    refine ⟨hversion, htable, Nat.lt_of_not_le fun hbodies => hformed ?_, hcomputed⟩
    exact ⟨Nat.le_trans (Nat.le_add_right ..) htable, hversion, htable, hbodies⟩

/-! ## Written artifacts -/

/-- The bytes of a word, the least significant first. -/
def wordBytes (n : Nat) : Bytes :=
  [UInt8.ofNat n, UInt8.ofNat (n / 256), UInt8.ofNat (n / 65536), UInt8.ofNat (n / 16777216)]

/-- The words of a header and of a layer table, one after the other. -/
def Summary.words (s : Summary) : List Nat :=
  [s.version, s.flags, s.arch, s.layers.length, s.maxStartAddress, s.mainMemUsage,
      s.mainMemOutputAddress, s.mainMemOutputSize] ++
    s.layers.flatMap fun layer => [layer.kind, layer.bodySize]

/-- A header and a layer table as bytes. -/
def Summary.written (s : Summary) : Bytes := s.words.flatMap wordBytes

theorem littleEndian_wordBytes {n : Nat} (h : n < fieldLimit) :
    Npy.littleEndian (wordBytes n) = n := by
  simp only [fieldLimit] at h
  simp only [wordBytes, Npy.littleEndian, UInt8.toNat_ofNat']
  omega

theorem length_written (words : List Nat) :
    (words.flatMap wordBytes).length = 4 * words.length := by
  induction words with
  | nil => rfl
  | cons w words ih =>
    have hword : (wordBytes w).length = 4 := rfl
    rw [List.flatMap_cons, List.length_append, hword, ih, List.length_cons]
    omega

/-- Written words are read back. -/
theorem wordAt_written {words : List Nat} (hfits : ∀ w ∈ words, w < fieldLimit) {w : Nat}
    (hw : words[index]? = some w) : wordAt (words.flatMap wordBytes ++ rest) index = w := by
  induction words generalizing index with
  | nil => cases hw
  | cons first words ih =>
    rw [List.flatMap_cons, List.append_assoc]
    cases index with
    | zero =>
      have hfirst : first = w := Option.some.inj hw
      exact hfirst ▸ littleEndian_wordBytes (hfits first List.mem_cons_self)
    | succ index =>
      have hskip : (wordBytes first).length = 4 * 1 := rfl
      rw [Nat.add_comm, wordAt_append_add hskip]
      exact ih (fun w hmem => hfits w (List.mem_cons_of_mem _ hmem)) hw

theorem length_table (layers : List Layer) :
    (layers.flatMap fun layer => [layer.kind, layer.bodySize]).length = 2 * layers.length := by
  induction layers with
  | nil => rfl
  | cons layer layers ih =>
    have hpair : [layer.kind, layer.bodySize].length = 2 := rfl
    rw [List.flatMap_cons, List.length_append, hpair, ih, List.length_cons]
    omega

/-- The words of an entry are two neighbours in the table. -/
theorem entry_words {layers : List Layer} {layer : Layer} (h : layers[entry]? = some layer) :
    (layers.flatMap fun layer => [layer.kind, layer.bodySize])[entry * 2]? = some layer.kind ∧
      (layers.flatMap fun layer => [layer.kind, layer.bodySize])[entry * 2 + 1]? =
        some layer.bodySize := by
  induction layers generalizing entry with
  | nil => cases h
  | cons first layers ih =>
    cases entry with
    | zero =>
      have hfirst : first = layer := Option.some.inj h
      rw [hfirst]
      exact ⟨rfl, rfl⟩
    | succ entry => exact Nat.succ_mul entry 2 ▸ ih h

/-- A written header and table say what was written, whatever follows them. -/
theorem summaryOf_written (hfits : ∀ w ∈ s.words, w < fieldLimit) :
    summaryOf (s.written ++ rest) = s := by
  have hread : ∀ index {w}, s.words[index]? = some w → wordAt (s.written ++ rest) index = w :=
    fun index w hw => wordAt_written hfits hw
  have hcount : declaredCount (s.written ++ rest) = s.layers.length := hread 3 rfl
  have hlayers : (summaryOf (s.written ++ rest)).layers = s.layers := by
    refine List.ext_getElem ((length_layers _).trans hcount) fun entry _ hentry => ?_
    obtain ⟨hkind, hbody⟩ := entry_words (List.getElem?_eq_getElem hentry)
    have hskip : ∀ index, s.words[8 + index]? =
        (s.layers.flatMap fun layer => [layer.kind, layer.bodySize])[index]? := fun index => by
      rw [Summary.words, List.getElem?_append_right (Nat.le_add_right 8 index)]
      exact congrArg _ (Nat.add_sub_cancel_left 8 index)
    have hkindAt := hread _ ((hskip _).trans hkind)
    have hbodyAt := hread _ ((hskip _).trans hbody)
    simp only [summaryOf, List.getElem_map, List.getElem_range, layerAt, Nat.add_assoc, hkindAt,
      hbodyAt]
  calc summaryOf (s.written ++ rest) = ⟨s.version, s.flags, s.arch, s.maxStartAddress,
        s.mainMemUsage, s.mainMemOutputAddress, s.mainMemOutputSize,
        (summaryOf (s.written ++ rest)).layers⟩ := by
          simp only [summaryOf, hread 0 rfl, hread 1 rfl, hread 2 rfl, hread 4 rfl, hread 5 rfl,
            hread 6 rfl, hread 7 rfl]
    _ = s := by rw [hlayers]

/-- A written artifact with bodies of the declared sizes, and whatever follows them, is well
formed. -/
theorem wellFormed_written (hfits : ∀ w ∈ s.words, w < fieldLimit)
    (hversion : s.version = knownVersion) (hbodies : bodiesSize s.layers ≤ rest.length) :
    WellFormed (s.written ++ rest) := by
  have hsummary : summaryOf (s.written ++ rest) = s := summaryOf_written hfits
  have htable : tableEnd (s.written ++ rest) = s.written.length := by
    rw [tableEnd, ← length_layers, hsummary, Summary.written, length_written, Summary.words,
      List.length_append, length_table]
    simp only [headerLength, List.length_cons, List.length_nil]
    omega
  have hlength : (s.written ++ rest).length = s.written.length + rest.length :=
    List.length_append
  have hends : bodiesEnd (s.written ++ rest) = s.written.length + bodiesSize s.layers := by
    rw [bodiesEnd, hsummary, htable]
  have hheader : headerLength ≤ tableEnd (s.written ++ rest) := Nat.le_add_right ..
  refine ⟨by omega, ?_, by omega, by omega⟩
  exact (congrArg Summary.version hsummary).trans hversion

/-! ## The answers as a whole -/

/-- The answer to a file is the one that the exact sums ask for, accepted with its own words or
refused, exactly when the file does not wrap. None of fewer than `2 ^ 35 - 16` bytes does, and no
written artifact either: it is read back. No word behind the end of a header is asked for, and the
faults of the checked steps are not met. -/
theorem inspect_exact (bytes : Bytes) :
    ((∀ s, inspect bytes = .ok s ↔ WellFormed bytes ∧ s = summaryOf bytes) ↔ ¬ Wraps bytes) ∧
    (bytes.length < 2 ^ 35 - 16 → ¬ Wraps bytes) ∧
    (∀ s rest, bytes = Summary.written s ++ rest → (∀ w ∈ s.words, w < fieldLimit) →
      s.version = knownVersion → bodiesSize s.layers ≤ rest.length →
        inspect bytes = .ok s ∧ ¬ Wraps bytes) ∧
    (∀ fault, inspect bytes = .error fault →
      fault ∈ [.headerTruncated, .version, .tableTruncated, .bodiesTooLarge] ∧
      (fault = .headerTruncated → bytes.length < headerLength)) := by
  refine ⟨⟨fun hexact hwraps => ?_, fun hwraps s => ?_⟩, not_wraps_of_short, ?_, ?_⟩
  · obtain ⟨hok, hformed⟩ := (wraps_iff).mp hwraps
    exact hformed ((hexact _).mp hok).1
  · constructor
    · intro hok
      have hsummary := ((inspect_eq_ok_iff).mp hok).2
      have hformed : WellFormed bytes :=
        by_contra fun hformed => hwraps ((wraps_iff).mpr ⟨hsummary ▸ hok, hformed⟩)
      exact ⟨hformed, hsummary⟩
    · intro ⟨hformed, hsummary⟩
      exact hsummary ▸ hformed.inspect
  · intro s rest hbytes hfits hversion hbodies
    have hformed : WellFormed bytes := hbytes ▸ wellFormed_written hfits hversion hbodies
    have hsummary : summaryOf bytes = s := hbytes ▸ summaryOf_written hfits
    exact ⟨hsummary ▸ hformed.inspect, fun hwraps => ((wraps_iff).mp hwraps).2 hformed⟩
  · intro fault herror
    rw [inspect_eq] at herror
    have hlength : headerLength = 32 := rfl
    split at herror
    · cases herror
      exact ⟨by decide, fun _ => by omega⟩
    split at herror
    · cases herror
      exact ⟨by decide, fun h => (nomatch h)⟩
    split at herror
    · cases herror
      exact ⟨by decide, fun _ => by omega⟩
    split at herror
    · cases herror
      exact ⟨by decide, fun h => (nomatch h)⟩
    split at herror
    · cases herror
      exact ⟨by decide, fun h => (nomatch h)⟩
    cases herror

/-- An artifact of two layers. -/
def twoLayers : Summary := ⟨3, 1, 2, 4, 5, 6, 7, [⟨5, 3⟩, ⟨2, 1⟩]⟩

/-- Two layers with bodies of four bytes, and a byte behind them, are read back. -/
theorem twoLayers_read : inspect (twoLayers.written ++ [1, 2, 3, 4, 5]) = .ok twoLayers ∧
    ∀ s, inspect (twoLayers.written ++ [1, 2, 3, 4, 5]) = .ok s ↔
      WellFormed (twoLayers.written ++ [1, 2, 3, 4, 5]) ∧
        s = summaryOf (twoLayers.written ++ [1, 2, 3, 4, 5]) := by
  obtain ⟨hexact, hshort, hwritten, -⟩ := inspect_exact (twoLayers.written ++ [1, 2, 3, 4, 5])
  have hlength : (twoLayers.written ++ [1, 2, 3, 4, 5]).length = 53 := rfl
  exact ⟨(hwritten twoLayers _ rfl (by decide) rfl (by decide)).1,
    hexact.mpr (hshort (by omega))⟩

/-! ## A file that wraps -/

/-- The header of a file without anything but layers. -/
def crowdedHeader (count : Nat) : Bytes := [3, 0, 0, count, 0, 0, 0, 0].flatMap wordBytes

/-- A header and a table of entries that declare as many bytes as can be declared each, and nothing
behind it. -/
def crowded (count : Nat) : Bytes := crowdedHeader count ++ List.replicate (8 * count) 255

/-- The words of a row of set bits are the largest. -/
theorem wordAt_replicate {n : Nat} (h : 4 * index + 4 ≤ n) :
    wordAt (List.replicate n 255) index = 4294967295 := by
  have htake : 4 ≤ n - 4 * index := by omega
  rw [wordAt, List.drop_replicate, List.take_replicate, Nat.min_eq_left htake]
  rfl

theorem length_crowded (count : Nat) : (crowded count).length = 32 + 8 * count := by
  rw [crowded, List.length_append, List.length_replicate]
  rfl

/-- What a crowded file says. -/
theorem summaryOf_crowded (h : count < fieldLimit) : summaryOf (crowded count) =
    ⟨3, 0, 0, 0, 0, 0, 0, List.replicate count ⟨4294967295, 4294967295⟩⟩ := by
  have hfits : ∀ w ∈ [3, 0, 0, count, 0, 0, 0, 0], w < fieldLimit := by
    simp only [fieldLimit] at h
    simp [fieldLimit, h]
  have hheader : ∀ index {w}, [3, 0, 0, count, 0, 0, 0, 0][index]? = some w →
      wordAt (crowded count) index = w := fun index w hw => wordAt_written hfits hw
  have hcount : declaredCount (crowded count) = count := hheader 3 rfl
  have hskip : (crowdedHeader count).length = 4 * 8 := rfl
  have htable : ∀ index, index < 2 * count → wordAt (crowded count) (8 + index) = 4294967295 :=
    fun index hindex => by
      rw [crowded, wordAt_append_add hskip, wordAt_replicate (by omega)]
  have hlayers : (List.range (declaredCount (crowded count))).map (layerAt (crowded count)) =
      List.replicate count ⟨4294967295, 4294967295⟩ := by
    rw [hcount, List.eq_replicate_iff]
    refine ⟨by rw [List.length_map, List.length_range], fun layer hlayer => ?_⟩
    obtain ⟨entry, hentry, hlayerAt⟩ := List.mem_map.mp hlayer
    have hlt := List.mem_range.mp hentry
    rw [← hlayerAt, layerAt, htable _ (by omega), Nat.add_assoc, htable _ (by omega)]
  rw [summaryOf, hlayers]
  simp only [hheader 0 rfl, hheader 1 rfl, hheader 2 rfl, hheader 4 rfl, hheader 5 rfl,
    hheader 6 rfl, hheader 7 rfl]

theorem tableEnd_crowded (h : count < fieldLimit) : tableEnd (crowded count) = 32 + 8 * count := by
  rw [tableEnd, ← length_layers, summaryOf_crowded h, List.length_replicate, headerLength]

theorem bodiesEnd_crowded (h : count < fieldLimit) :
    bodiesEnd (crowded count) = 32 + 8 * count + count * 4294967295 := by
  rw [bodiesEnd, tableEnd_crowded h, summaryOf_crowded h, bodiesSize, List.map_replicate,
    List.sum_replicate_nat]

/-- A crowded file with nearly as many layers as can be declared wraps. -/
theorem crowded_wraps (hlarge : 4294967290 ≤ count) (h : count < fieldLimit) :
    Wraps (crowded count) := by
  have htable := tableEnd_crowded h
  have hend := bodiesEnd_crowded h
  have hlength := length_crowded count
  have hlimit : wordLimit = 18446744073709551616 := rfl
  simp only [fieldLimit] at h
  refine ⟨congrArg Summary.version (summaryOf_crowded h), by omega, by omega, ?_⟩
  rw [hend, hlength, Nat.mod_eq_sub_mod (by omega), Nat.mod_eq_of_lt (by omega)]
  omega

/-- The bodies of the largest crowded file end `2 ^ 64` bytes and more behind its start. What a word
holds of this end is in the file, and it is accepted. -/
theorem crowded_accepted :
    inspect (crowded 4294967295) =
        .ok ⟨3, 0, 0, 0, 0, 0, 0, List.replicate 4294967295 ⟨4294967295, 4294967295⟩⟩ ∧
      (crowded 4294967295).length = 34359738392 ∧
      bodiesEnd (crowded 4294967295) = wordLimit + 25769803801 ∧
      ¬ WellFormed (crowded 4294967295) := by
  have hcount : 4294967295 < fieldLimit := by decide
  have hend := bodiesEnd_crowded hcount
  have hlength := length_crowded 4294967295
  have hlimit : wordLimit = 18446744073709551616 := rfl
  obtain ⟨hok, hformed⟩ := wraps_iff.mp (crowded_wraps (by decide) hcount)
  exact ⟨summaryOf_crowded hcount ▸ hok, by omega, by omega, hformed⟩

end NetTrial.Artifact
