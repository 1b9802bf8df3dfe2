/-!
# Text and its bytes

A text is written as UTF-8. A byte string is read by units: each unit is a character, or
`none` for a longest stretch of bytes that starts a character and does not finish one. A byte
string is text when all its units are characters, and the bytes of a text are read back as
that text.
-/

namespace NetTrial.Text

/-- A byte string. -/
abbrev Bytes := List UInt8

/-! ## Writing -/

/-- The UTF-8 bytes of some characters. -/
def encodeChars (cs : List Char) : Bytes := cs.flatMap String.utf8EncodeChar

/-- The UTF-8 bytes of a text. -/
def encode (s : String) : Bytes := s.toUTF8.data.toList

/-- The bytes of a text are those of its characters. -/
theorem encode_ofList (cs : List Char) : encode (String.ofList cs) = encodeChars cs := by
  simp [encode, encodeChars, String.toUTF8, List.utf8Encode]

/-- The bytes of a text are those of its characters. -/
theorem encode_eq (s : String) : encode s = encodeChars s.toList := by
  rw [← encode_ofList, String.ofList_toList]

/-! ## Reading -/

/-- Whether a byte continues a character. -/
def continues (b : UInt8) : Bool := 0x80 ≤ b.toNat && b.toNat ≤ 0xBF

/-- How many bytes follow a leading byte, and the range that the first of them is held to.
The ranges leave out longer forms than needed, surrogates and what lies beyond the last
code point. -/
def tailOf? (lead : Nat) : Option (Nat × Nat × Nat) :=
  if lead < 0xC2 then none
  else if lead < 0xE0 then some (1, 0x80, 0xBF)
  else if lead = 0xE0 then some (2, 0xA0, 0xBF)
  else if lead = 0xED then some (2, 0x80, 0x9F)
  else if lead < 0xF0 then some (2, 0x80, 0xBF)
  else if lead = 0xF0 then some (3, 0x90, 0xBF)
  else if lead < 0xF4 then some (3, 0x80, 0xBF)
  else if lead = 0xF4 then some (3, 0x80, 0x8F)
  else none

/-- The code point bits that a byte after the first carries, put below those read so far. -/
def pushBits (code : Nat) (b : UInt8) : Nat := code * 64 + b.toNat % 64

/-- Reads the bytes that must follow: the code point when all are there, and how many bytes
belong to the character or to the broken start of one. -/
def takeTail (code taken : Nat) : (needed : Nat) → Bytes → Option Char × Nat
  | 0, _ => (some (Char.ofNat code), taken)
  | _ + 1, [] => (none, taken)
  | n + 1, b :: bs =>
    if continues b then takeTail (pushBits code b) (taken + 1) n bs else (none, taken)

/-- The code point bits of a leading byte that so many bytes follow. -/
def leadBits (lead : Nat) : (needed : Nat) → Nat
  | 1 => lead % 32
  | 2 => lead % 16
  | _ => lead % 8

/-- The first unit of a byte string that opens with `lead`, and the number of its bytes
after that one. -/
def firstUnit (lead : UInt8) (rest : Bytes) : Option Char × Nat :=
  if lead.toNat < 0x80 then (some (Char.ofNat lead.toNat), 0)
  else
    match tailOf? lead.toNat, rest with
    | some (needed, low, high), b :: bs =>
      if low ≤ b.toNat ∧ b.toNat ≤ high then
        takeTail (pushBits (leadBits lead.toNat needed) b) 1 (needed - 1) bs
      else (none, 0)
    | _, _ => (none, 0)

/-- The units of a byte string whose first `taken` bytes belong to a unit already read. -/
def unitsFrom : (taken : Nat) → Bytes → List (Option Char)
  | _, [] => []
  | taken + 1, _ :: rest => unitsFrom taken rest
  | 0, lead :: rest =>
    let (unit, taken) := firstUnit lead rest
    unit :: unitsFrom taken rest

/-- The units of a byte string, one longest broken stretch at a time. -/
def units (bytes : Bytes) : List (Option Char) := unitsFrom 0 bytes

/-- The characters of a list of units, if all of them are characters. -/
def allChars? : List (Option Char) → Option (List Char)
  | [] => some []
  | none :: _ => none
  | some c :: rest => (allChars? rest).map (c :: ·)

/-- The characters that a byte string is the UTF-8 form of, if there are such. -/
def decodeChars? (bytes : Bytes) : Option (List Char) := allChars? (units bytes)

/-- The text of a byte string with U+FFFD for every stretch that is none. -/
def decodeLossy (bytes : Bytes) : String :=
  String.ofList ((units bytes).map (·.getD (Char.ofNat 0xFFFD)))

/-! ## What was written is read back -/

/-- Reading goes on behind the bytes of a unit. -/
theorem unitsFrom_append (front back : Bytes) :
    unitsFrom front.length (front ++ back) = unitsFrom 0 back := by
  induction front with
  | nil => rfl
  | cons b front ih => simpa [unitsFrom] using ih

/-- The byte of a number below 256 is that number. -/
theorem toNat_byte {n : Nat} (h : n < 256) : (UInt8.ofNat n).toNat = n := by
  rw [UInt8.toNat_ofNat']
  omega

/-- Two bytes that spell a code point are read as its character. -/
theorem firstUnit_two {a b : UInt8} {v : Nat} (back : Bytes) (low : 128 ≤ v) (high : v ≤ 2047)
    (ha : a.toNat = v / 64 + 192) (hb : b.toNat = v % 64 + 128) :
    firstUnit a (b :: back) = (some (Char.ofNat v), 1) := by
  have range : tailOf? (v / 64 + 192) = some (1, 0x80, 0xBF) := by
    rw [tailOf?, if_neg (by omega), if_pos (by omega)]
  have code : pushBits (leadBits (v / 64 + 192) 1) b = v := by
    simp only [pushBits, leadBits, hb]
    omega
  simp only [firstUnit, ha, range, hb, code]
  rw [if_neg (by omega), if_pos (by omega)]
  rfl

/-- Three bytes that spell a code point are read as its character. -/
theorem firstUnit_three {a b c : UInt8} {v : Nat} (back : Bytes) (low : 2048 ≤ v)
    (high : v ≤ 65535) (valid : v < 0xD800 ∨ 0xDFFF < v) (ha : a.toNat = v / 4096 + 224)
    (hb : b.toNat = v / 64 % 64 + 128) (hc : c.toNat = v % 64 + 128) :
    firstUnit a (b :: c :: back) = (some (Char.ofNat v), 2) := by
  have range : ∃ least greatest, tailOf? (v / 4096 + 224) = some (2, least, greatest) ∧
      least ≤ v / 64 % 64 + 128 ∧ v / 64 % 64 + 128 ≤ greatest := by
    unfold tailOf?
    rw [if_neg (by omega), if_neg (by omega)]
    by_cases first : v / 4096 + 224 = 0xE0
    · exact ⟨_, _, by rw [if_pos first], by omega, by omega⟩
    by_cases surrogate : v / 4096 + 224 = 0xED
    · exact ⟨_, _, by rw [if_neg first, if_pos surrogate], by omega, by omega⟩
    · exact ⟨_, _, by rw [if_neg first, if_neg surrogate, if_pos (by omega)], by omega, by omega⟩
  obtain ⟨least, greatest, range, above, below⟩ := range
  have code : pushBits (pushBits (leadBits (v / 4096 + 224) 2) b) c = v := by
    simp only [pushBits, leadBits, hb, hc]
    omega
  have follows : continues c = true := by
    simp only [continues, hc, Bool.and_eq_true, decide_eq_true_eq]
    omega
  simp only [firstUnit, ha, range, hb, takeTail, follows, code, if_true]
  rw [if_neg (by omega), if_pos ⟨above, below⟩]

/-- Four bytes that spell a code point are read as its character. -/
theorem firstUnit_four {a b c d : UInt8} {v : Nat} (back : Bytes) (low : 65536 ≤ v)
    (high : v < 0x110000) (ha : a.toNat = v / 262144 + 240) (hb : b.toNat = v / 4096 % 64 + 128)
    (hc : c.toNat = v / 64 % 64 + 128) (hd : d.toNat = v % 64 + 128) :
    firstUnit a (b :: c :: d :: back) = (some (Char.ofNat v), 3) := by
  have range : ∃ least greatest, tailOf? (v / 262144 + 240) = some (3, least, greatest) ∧
      least ≤ v / 4096 % 64 + 128 ∧ v / 4096 % 64 + 128 ≤ greatest := by
    unfold tailOf?
    rw [if_neg (by omega), if_neg (by omega), if_neg (by omega), if_neg (by omega),
      if_neg (by omega)]
    by_cases first : v / 262144 + 240 = 0xF0
    · exact ⟨_, _, by rw [if_pos first], by omega, by omega⟩
    by_cases middle : v / 262144 + 240 < 0xF4
    · exact ⟨_, _, by rw [if_neg first, if_pos middle], by omega, by omega⟩
    · exact ⟨_, _, by rw [if_neg first, if_neg middle, if_pos (by omega)], by omega, by omega⟩
  obtain ⟨least, greatest, range, above, below⟩ := range
  have code : pushBits (pushBits (pushBits (leadBits (v / 262144 + 240) 3) b) c) d = v := by
    simp only [pushBits, leadBits, hb, hc, hd]
    omega
  have follows : continues c = true ∧ continues d = true := by
    simp only [continues, hc, hd, Bool.and_eq_true, decide_eq_true_eq]
    omega
  simp only [firstUnit, ha, range, hb, takeTail, follows.1, follows.2, code, if_true]
  rw [if_neg (by omega), if_pos ⟨above, below⟩]

/-- The bytes of a character are read as that character. -/
theorem firstUnit_encode (c : Char) (back : Bytes) :
    ∃ lead tail, String.utf8EncodeChar c = lead :: tail ∧
      firstUnit lead (tail ++ back) = (some c, tail.length) := by
  have valid : c.toNat < 0xD800 ∨ (0xDFFF < c.toNat ∧ c.toNat < 0x110000) := c.valid
  have same : Char.ofNat c.toNat = c := Char.ofNat_toNat c
  have code : c.val.toNat = c.toNat := rfl
  unfold String.utf8EncodeChar
  simp only [code]
  generalize c.toNat = v at valid same
  subst same
  by_cases one : v ≤ 127
  · refine ⟨_, [], by rw [if_pos one], ?_⟩
    simp only [firstUnit, toNat_byte (show v < 256 by omega), List.length_nil]
    rw [if_pos (by omega)]
  by_cases two : v ≤ 2047
  · exact ⟨_, [_], by rw [if_neg one, if_pos two],
      firstUnit_two back (by omega) two ((toNat_byte (by omega)).trans (by omega))
        (toNat_byte (by omega))⟩
  by_cases three : v ≤ 65535
  · exact ⟨_, [_, _], by rw [if_neg one, if_neg two, if_pos three],
      firstUnit_three back (by omega) three (by omega) ((toNat_byte (by omega)).trans (by omega))
        (toNat_byte (by omega)) (toNat_byte (by omega))⟩
  · exact ⟨_, [_, _, _], by rw [if_neg one, if_neg two, if_neg three],
      firstUnit_four back (by omega) (by omega) ((toNat_byte (by omega)).trans (by omega))
        (toNat_byte (by omega)) (toNat_byte (by omega)) (toNat_byte (by omega))⟩

/-- The units of some characters' bytes are these characters. -/
theorem units_encodeChars (cs : List Char) : units (encodeChars cs) = cs.map some := by
  induction cs with
  | nil => rfl
  | cons c cs ih =>
    obtain ⟨lead, tail, bytes, unit⟩ := firstUnit_encode c (encodeChars cs)
    have split : encodeChars (c :: cs) = lead :: (tail ++ encodeChars cs) := by
      simp [encodeChars, bytes]
    rw [split]
    simp only [units, unitsFrom, unit, unitsFrom_append, List.map_cons, List.cons.injEq, true_and]
    exact ih

/-- The characters of units that are all characters. -/
theorem allChars?_map_some (cs : List Char) : allChars? (cs.map some) = some cs := by
  induction cs with
  | nil => rfl
  | cons c cs ih => simp [allChars?, ih]

/-- Characters are read back from their bytes. -/
theorem decodeChars?_encodeChars (cs : List Char) : decodeChars? (encodeChars cs) = some cs := by
  rw [decodeChars?, units_encodeChars, allChars?_map_some]

/-- The units of a text's bytes are its characters. -/
theorem units_encode (s : String) : units (encode s) = s.toList.map some := by
  rw [encode_eq, units_encodeChars]

/-- A text survives lossy reading. -/
theorem decodeLossy_encode (s : String) : decodeLossy (encode s) = s := by
  simp [decodeLossy, units_encode, Function.comp_def]

/-! ## Hexadecimal -/

/-- The two hexadecimal digits of a byte, in lower case. -/
def hexByte (b : UInt8) : List Char :=
  [Nat.digitChar (b.toNat / 16), Nat.digitChar (b.toNat % 16)]

/-- A byte string as hexadecimal digits, two a byte. -/
def hex (bytes : Bytes) : String := String.ofList (bytes.flatMap hexByte)

end NetTrial.Text
