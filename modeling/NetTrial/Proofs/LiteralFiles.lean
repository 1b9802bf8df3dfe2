import NetTrial.Proofs.SpelledHeaders
/-!
# Files with dictionary literals

A file is a header text and a body, and it is read exactly when the text is legible and the body
is the payload of the header. So every file around a spelled header is read as what it spells,
whatever the version and the padding. Of the files that are read those whose header is a literal
of the three keys are those whose header is a dictionary literal of three entries. The others are
read as well: a fourth key is no hindrance.
-/

namespace NetTrial.Npy

open Number Text

variable {d : Dictionary} {h : Header} {bytes body : Bytes} {text : List Char} {count : Nat}

/-! ## Texts and files -/

/-- Whether a file is a header text and a body of as many bytes as the shape of a header asks
for. -/
structure Carries (bytes : Bytes) (text : List Char) (h : Header) (body : Bytes) : Prop where
  /-- The header is the text, and the body is all that follows it. -/
  framed : ∃ header, Framed bytes header body ∧ decodeChars? header = some text
  /-- The elements that the shape asks for take these many bytes. -/
  payload : ∃ count, h.shape.elementCount = .ok count ∧ body.length = count * h.kind.itemSize
  /-- They can be counted. -/
  counted : body.length < wordLimit

/-- What is read is legible and comes with its payload, and nothing else is asked for. -/
theorem read_iff_legible :
    read bytes = .ok (h, body) ↔
      ∃ text, Carries bytes text h body ∧ Legible (dropTrailingBlanks text) h := by
  rw [read_eq_ok_iff]
  constructor
  · rintro ⟨header, count, hframed, hheader, hpayload⟩
    obtain ⟨text, htext, hlegible⟩ := readHeader_eq_ok_iff.mp hheader
    obtain ⟨hcount, hlength, hlt⟩ := checkPayload_eq_ok_iff.mp hpayload
    exact ⟨text, ⟨⟨header, hframed, htext⟩, ⟨count, hcount, hlength⟩, hlt⟩, hlegible⟩
  · rintro ⟨text, hcarries, hlegible⟩
    obtain ⟨header, hframed, htext⟩ := hcarries.framed
    obtain ⟨count, hcount, hlength⟩ := hcarries.payload
    exact ⟨header, count, hframed, readHeader_eq_ok_iff.mpr ⟨text, htext, hlegible⟩,
      checkPayload_eq_ok_iff.mpr ⟨hcount, hlength, hcarries.counted⟩⟩

/-- A file has one header in front of a body. -/
theorem Framed.header_unique {header other : Bytes} (hframed : Framed bytes header body)
    (hother : Framed bytes other body) : header = other := by
  obtain ⟨major, field, hbytes, -, hfield, -⟩ := hframed.laid
  obtain ⟨major', field', hbytes', -, hfield', -⟩ := hother.laid
  rw [hbytes] at hbytes'
  have hsame : magic ++ ([major, 0] ++ (field ++ header)) =
      magic ++ ([major', 0] ++ (field' ++ other)) := by
    have hfront := List.append_cancel_right hbytes'
    simpa only [List.append_assoc] using hfront
  obtain ⟨hmajor, hrest⟩ := List.append_inj (List.append_cancel_left hsame) rfl
  rw [(List.cons.inj hmajor).1] at hfield
  exact (List.append_inj hrest (hfield.trans hfield'.symm)).2

theorem Carries.text_unique {other : List Char} (hcarries : Carries bytes text h body)
    (hother : Carries bytes other h body) : text = other := by
  obtain ⟨header, hframed, htext⟩ := hcarries.framed
  obtain ⟨header', hframed', htext'⟩ := hother.framed
  rw [hframed.header_unique hframed', htext'] at htext
  exact (Option.some.inj htext).symm

/-! ## Every spelling is read -/

/-- A file of any version around a dictionary that spells a header, with its payload as the body,
is read as this header and this body. -/
theorem read_of_spells (hspells : d.Spells h) (hspaced : d.Spaced) (padding : Blanks)
    (hframed : Framed bytes (encodeChars (d.chars ++ padding.chars)) body)
    (hdims : ∀ dim ∈ h.shape, dim < wordLimit) (hrank : h.shape.length ≤ largestRank)
    (hcount : h.shape.elementCount = .ok count) (hlength : body.length = count * h.kind.itemSize)
    (hlt : count * h.kind.itemSize < wordLimit) : read bytes = .ok (h, body) := by
  rw [read_iff_legible]
  refine ⟨d.chars ++ padding.chars, ⟨⟨_, hframed, decodeChars?_encodeChars _⟩,
    ⟨count, hcount, hlength⟩, hlength ▸ hlt⟩, ?_⟩
  rw [d.dropTrailingBlanks_chars]
  exact hspells.legible hspaced hdims hrank hcount

/-- A dictionary with the shape first, both kinds of quotes, and blanks in some places. -/
def reordered : Dictionary where
  first :=
    { lead := .space
      quote := .double
      key := keyWord "shape" shape_mem_keys
      before := .space
      after := .space
      value := .tuple (.numerals ⟨.space, ⟨2, by decide⟩, [], .space⟩
        [⟨.none, ⟨3, by decide⟩, [], .none⟩] (some .space))
      trail := .space }
  more :=
    [{ lead := .none
       quote := .single
       key := keyWord "fortran_order" order_mem_keys
       before := .none
       after := .none
       value := .truth false
       trail := .none },
     { lead := .space
       quote := .double
       key := keyWord "descr" descr_mem_keys
       before := .none
       after := .space
       value := .text .single ⟨"<u1".toList, unquoted_iff.mpr (by decide)⟩
       trail := .space }]
  close := none

example : String.ofList reordered.chars =
    "\x7b \"shape\" : ( 2 ,3, ) ,'fortran_order':False, \"descr\": '<u1' \x7d" := by
  decide

theorem reordered_spells : reordered.Spells ⟨[2, 3], .u8⟩ where
  listed := by
    unfold Dictionary.Listed
    decide
  told := by
    intro e he
    simp only [reordered, Dictionary.entries, List.mem_cons, List.not_mem_nil, or_false] at he
    rcases he with he | he | he <;> rw [he]
    · exact .shape _ rfl rfl trivial rfl
    · exact .order rfl rfl
    · exact .kind _ _ rfl rfl (by decide)

theorem reordered_spaced : reordered.Spaced := by
  intro e he c hc
  simp only [reordered, Dictionary.entries, List.mem_cons, List.not_mem_nil, or_false] at he
  rcases he with he | he | he <;> rw [he] at hc
  · exact List.mem_singleton.mp hc
  · cases hc
  · exact List.mem_singleton.mp hc

/-- This dictionary, two spaces and the end of a line. -/
def reorderedHeader : List Char := reordered.chars ++ (Blanks.padding 2).chars

/-- A file of the second version with this header. -/
def reorderedFile : Bytes :=
  magic ++ [2, 0] ++ [65, 0, 0, 0] ++ encodeChars reorderedHeader ++ [1, 2, 3, 4, 5, 6]

theorem reorderedFile_framed :
    Framed reorderedFile (encodeChars reorderedHeader) [1, 2, 3, 4, 5, 6] where
  laid := ⟨2, [65, 0, 0, 0], rfl, by decide, rfl, by decide⟩
  nonempty := by decide
  budget := by decide

theorem read_reorderedFile :
    read reorderedFile = .ok (⟨[2, 3], .u8⟩, [1, 2, 3, 4, 5, 6]) := by
  have hcount : Shape.elementCount [2, 3] = .ok 6 := rfl
  exact read_of_spells reordered_spells reordered_spaced (.padding 2) reorderedFile_framed
    (by decide) (by decide) hcount rfl (by decide)

/-! ## Not only spellings are read -/

/-- Whether a text is a dictionary literal that spells a header, and blanks. -/
def Literal (text : List Char) (h : Header) : Prop :=
  ∃ (d : Dictionary) (padding : Blanks), text = d.chars ++ padding.chars ∧ d.Spells h

/-- Whether a text is a dictionary literal of three entries, whatever they are, and blanks. -/
def Triple (text : List Char) : Prop :=
  ∃ (d : Dictionary) (padding : Blanks), text = d.chars ++ padding.chars ∧ d.entries.length = 3

/-- The body of a file that is read is all that follows the header, and the payload of the header.
Its text is a literal of the three keys with what was read as their values if and only if it is a
dictionary literal of three entries at all. -/
theorem literal_iff_triple (hread : read bytes = .ok (h, body)) :
    ∃ text, Carries bytes text h body ∧ Legible (dropTrailingBlanks text) h ∧
      (Literal text h ↔ Triple text) := by
  obtain ⟨text, hcarries, hlegible⟩ := (read_iff_legible).mp hread
  refine ⟨text, hcarries, hlegible, ?_⟩
  constructor
  · rintro ⟨d, padding, htext, hspells⟩
    have hlength := hspells.listed.length_eq
    rw [List.length_map] at hlength
    exact ⟨d, padding, htext, hlength⟩
  · rintro ⟨d, padding, htext, hthree⟩
    rw [htext, d.dropTrailingBlanks_chars] at hlegible
    exact ⟨d, padding, htext, hlegible.spells hthree⟩

theorem reordered_literal :
    ∃ text, Carries reorderedFile text ⟨[2, 3], .u8⟩ [1, 2, 3, 4, 5, 6] ∧
      Literal text ⟨[2, 3], .u8⟩ := by
  have hread : read reorderedFile = .ok (⟨[2, 3], .u8⟩, [1, 2, 3, 4, 5, 6]) := rfl
  obtain ⟨text, hcarries, -, hiff⟩ := literal_iff_triple hread
  have hsame : Carries reorderedFile reorderedHeader ⟨[2, 3], .u8⟩ [1, 2, 3, 4, 5, 6] :=
    ⟨⟨_, reorderedFile_framed, decodeChars?_encodeChars _⟩, ⟨6, rfl, rfl⟩, by decide⟩
  exact ⟨text, hcarries, hiff.mpr ⟨reordered, .padding 2, hcarries.text_unique hsame, rfl⟩⟩

/-- A header with a fourth key. -/
def fourKeys : List Char :=
  "\x7b'descr': '<f4', 'fortran_order': False, 'shape': (1,), 'extra': 1\x7d".toList

/-- A file with this header. -/
def fourKeyFile : Bytes :=
  magic ++ [1, 0] ++ [67, 0] ++ encodeChars fourKeys ++ [0, 0, 224, 64]

theorem fourKeyFile_read :
    read fourKeyFile = .ok (⟨[1], .f32⟩, [0, 0, 224, 64]) ∧
      ¬ ∃ text, Carries fourKeyFile text ⟨[1], .f32⟩ [0, 0, 224, 64] ∧
        Literal text ⟨[1], .f32⟩ := by
  have hcarries : Carries fourKeyFile fourKeys ⟨[1], .f32⟩ [0, 0, 224, 64] :=
    ⟨⟨encodeChars fourKeys, ⟨⟨1, [67, 0], rfl, by decide, rfl, by decide⟩, by decide, by decide⟩,
      decodeChars?_encodeChars _⟩, ⟨1, rfl, rfl⟩, by decide⟩
  refine ⟨rfl, ?_⟩
  rintro ⟨text, hother, d, padding, htext, hspells⟩
  rw [hother.text_unique hcarries] at htext
  have hchars : fourKeys = d.chars := by
    rw [← d.dropTrailingBlanks_chars padding, ← htext]
    rfl
  have hplain : Plain "extra".toList := ⟨unquoted_iff.mpr (by decide), by decide⟩
  have hfound : after? (Quote.single.around "extra".toList) d.chars = some ": 1\x7d".toList := by
    rw [← hchars]
    decide
  rcases hspells.word_of_found hplain hfound with hkey | hdescriptor
  · exact absurd hkey (by decide)
  · exact absurd hdescriptor (by decide)

end NetTrial.Npy
