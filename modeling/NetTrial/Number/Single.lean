import NetTrial.Number.Binary
import NetTrial.Text.Utf8
/-!
# Single-precision words

Tensor elements are kept as bit patterns, so that data that is only moved keeps every bit,
those of what is no number included. Arithmetic goes through core's `Float32` and settles
which pattern stands for a result that is no number: the first operand that is none, made
quiet, or else one fixed pattern.
-/

namespace NetTrial

open Number Text

/-- A single-precision number by its bit pattern. -/
structure Single where
  /-- The 32 bits. -/
  bits : UInt32
  deriving DecidableEq, Repr, Inhabited

namespace Single

/-- Whether a word is no number. -/
def isNaN (x : Single) : Bool :=
  Format.single.exponentField x.bits.toNat == Format.single.topExponent &&
    Format.single.fraction x.bits.toNat != 0

/-- Whether a word is an infinity or no number. -/
def isExtreme (x : Single) : Bool :=
  Format.single.exponentField x.bits.toNat == Format.single.topExponent

/-- The quiet form of a word that is no number. -/
def quiet (x : Single) : Single := ⟨x.bits ||| 0x00400000⟩

/-- The pattern of a result that is no number though its operands are. -/
def indefinite : Single := ⟨0xFFC00000⟩

/-- Positive zero. -/
def zero : Single := ⟨0⟩

/-- Six. -/
def six : Single := ⟨0x40C00000⟩

/-- A word as it comes out of an operation that only copies its number. -/
def settle (x : Single) : Single := if x.isNaN then x.quiet else x

/-- Runs an operation of core on two words and settles a result that is no number. -/
def operate (op : Float32 → Float32 → Float32) (x y : Single) : Single :=
  if x.isNaN then x.quiet
  else if y.isNaN then y.quiet
  else
    let r : Single := ⟨(op (Float32.ofBits x.bits) (Float32.ofBits y.bits)).toBits⟩
    if r.isNaN then indefinite else r

/-- The rounded sum. -/
def add (x y : Single) : Single := operate (· + ·) x y

/-- The rounded product. -/
def mul (x y : Single) : Single := operate (· * ·) x y

instance : Add Single := ⟨add⟩

instance : Mul Single := ⟨mul⟩

/-- Whether one number is less than another; false when one of them is none. -/
def lt (x y : Single) : Bool := Float32.lt (Float32.ofBits x.bits) (Float32.ofBits y.bits)

/-- The number nearest to a natural. -/
def ofNat (n : Nat) : Single := ⟨(Format.single.round false n 1).toUInt32⟩

/-- The four bytes of a word, the least significant first. -/
def toBytes (x : Single) : Bytes :=
  let n := x.bits.toNat
  [UInt8.ofNat n, UInt8.ofNat (n / 256), UInt8.ofNat (n / 65536), UInt8.ofNat (n / 16777216)]

/-- The word of four bytes, the least significant first. -/
def ofBytes (a b c d : UInt8) : Single :=
  ⟨UInt32.ofNat (a.toNat + b.toNat * 256 + c.toNat * 65536 + d.toNat * 16777216)⟩

/-- The number that four bytes spell fits a word. -/
theorem toNat_bits_ofBytes (a b c d : UInt8) :
    (ofBytes a b c d).bits.toNat =
      a.toNat + b.toNat * 256 + c.toNat * 65536 + d.toNat * 16777216 := by
  have ha := a.toNat_lt
  have hb := b.toNat_lt
  have hc := c.toNat_lt
  have hd := d.toNat_lt
  simp only [ofBytes, UInt32.toNat_ofNat']
  omega

/-- Four bytes are read back from the word they spell. -/
theorem toBytes_ofBytes (a b c d : UInt8) : toBytes (ofBytes a b c d) = [a, b, c, d] := by
  have ha := a.toNat_lt
  have hb := b.toNat_lt
  have hc := c.toNat_lt
  have hd := d.toNat_lt
  simp only [toBytes, toNat_bits_ofBytes, List.cons.injEq, and_true]
  refine ⟨?_, ?_, ?_, ?_⟩ <;> apply UInt8.toNat_inj.1 <;> simp only [UInt8.toNat_ofNat'] <;> omega

/-- A word is read back from its bytes. -/
theorem ofBytes_toBytes (x : Single) :
    ofBytes (UInt8.ofNat x.bits.toNat) (UInt8.ofNat (x.bits.toNat / 256))
      (UInt8.ofNat (x.bits.toNat / 65536)) (UInt8.ofNat (x.bits.toNat / 16777216)) = x := by
  have h := x.bits.toNat_lt
  cases x with
  | mk bits =>
    simp only [ofBytes, mk.injEq]
    apply UInt32.toNat_inj.1
    simp only [UInt8.toNat_ofNat', UInt32.toNat_ofNat'] at h ⊢
    omega

/-- The words of a byte string, four bytes each; bytes left over at the end are dropped. -/
def listOfBytes : Bytes → List Single
  | a :: b :: c :: d :: rest => ofBytes a b c d :: listOfBytes rest
  | _ => []

/-- Words are read back from their bytes. -/
theorem listOfBytes_flatMap (xs : List Single) : listOfBytes (xs.flatMap toBytes) = xs := by
  induction xs with
  | nil => rfl
  | cons x xs ih =>
    simp only [List.flatMap_cons, toBytes, List.cons_append, List.nil_append, listOfBytes,
      ofBytes_toBytes, List.cons.injEq, true_and]
    exact ih

end Single

end NetTrial
