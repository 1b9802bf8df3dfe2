import NetTrial.Number.Single
/-!
# Double-precision words

Errors and tolerances are double-precision numbers, kept as bit patterns like the
single-precision ones. Numbers are compared by magnitude and sign, so that the order is the
order of naturals and needs no facts about core's `Float`; only the difference of two
numbers goes through core.
-/

namespace NetTrial

open Number

/-- A double-precision number by its bit pattern. -/
structure Double where
  /-- The 64 bits. -/
  bits : UInt64
  deriving DecidableEq, Repr, Inhabited

namespace Double

/-- What a word stands for. -/
def value (x : Double) : Value := Format.double.decode x.bits.toNat

/-- Positive zero. -/
def zero : Double := ⟨0⟩

/-- Positive infinity. -/
def infinity : Double := ⟨0x7FF0000000000000⟩

/-- The magnitude of a word: its bits below the sign. Magnitudes of numbers are ordered as
the numbers are. -/
def magnitude (x : Double) : Nat := x.bits.toNat % 0x8000000000000000

/-- Whether a word is no number. -/
def isNaN (x : Double) : Bool := infinity.magnitude < x.magnitude

/-- Whether a word is a number and no infinity. -/
def isFinite (x : Double) : Bool := x.magnitude < infinity.magnitude

/-- Whether a word is a number below zero. -/
def isBelowZero (x : Double) : Bool :=
  !x.isNaN && x.magnitude != 0 && x.bits.toNat != x.magnitude

/-- Whether two words stand for one number. -/
def equals (x y : Double) : Bool :=
  !x.isNaN && !y.isNaN && (x.bits == y.bits || (x.magnitude == 0 && y.magnitude == 0))

/-- A number equals itself. -/
theorem equals_self {x : Double} (h : x.isNaN = false) : x.equals x = true := by
  simp [equals, h]

/-- The number without its sign. -/
def abs (x : Double) : Double := ⟨UInt64.ofNat x.magnitude⟩

/-- The rounded difference. -/
def sub (x y : Double) : Double := ⟨(Float.ofBits x.bits - Float.ofBits y.bits).toBits⟩

/-- The larger of two magnitudes. -/
def maxMagnitude (x y : Double) : Double := if x.magnitude < y.magnitude then y else x

/-- A single-precision number in double precision, which holds it exactly. -/
def ofSingle (x : Single) : Double :=
  ⟨((Format.single.decode x.bits.toNat).encode Format.double).toUInt64⟩

/-- The double-precision number nearest to a natural. -/
def ofNat (n : Nat) : Double := ⟨(Format.double.round false n 1).toUInt64⟩

end Double

/-- The single-precision number nearest to a double-precision one. -/
def Single.ofDouble (x : Double) : Single := ⟨(x.value.encode Format.single).toUInt32⟩

end NetTrial
