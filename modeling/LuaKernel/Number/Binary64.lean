/-!
# Binary64

The numbers of the language: IEEE 754 binary64 values, kept as their sixty-four bits.

Without the sign bit, the bits are a position on one ladder.  Rung `0` is zero, each further rung
is the next larger representable magnitude, rung `infinityIndex` is infinity, and everything above
it is a NaN.  Measured in units of `2⁻¹⁰⁷⁴`, the least positive magnitude, every rung is a natural
number (`rung`): infinity stands at `2¹⁰²⁴`, where the ladder would go on.  So a number that is no
NaN has an exact integer value in these units (`value`), and comparing numbers is comparing
integers.

The rungs come in groups of `2⁵²` with steps of one size, which doubles from group to group; only
the first two groups have the same.  `rung_succ` says so, and `rung_lt_rung` that the ladder rises.
-/

namespace LuaKernel

/-- A binary64 number, given by its bits. -/
structure Binary64 where
  bits : UInt64
deriving DecidableEq

namespace Binary64

/-! ### The ladder of magnitudes -/

/-- One, in units of the least positive magnitude. -/
def one : Nat := 1 <<< 1074

/-- The magnitude at position `i` of the ladder, in units of the least positive magnitude.  The
positions of a group differ in their lower fifty-two bits. -/
def rung (i : Nat) : Nat :=
  if i < 0x10000000000000 then i
  else (0x10000000000000 + i % 0x10000000000000) <<< (i / 0x10000000000000 - 1)

/-- The position of infinity. -/
def infinityIndex : Nat := 0x7FF0000000000000

/-- The position of a number on the ladder: its bits without the sign. -/
def index (x : Binary64) : Nat := x.bits.toNat % 0x8000000000000000

/-- Whether the sign bit is set; it is for negative numbers and for negative zero. -/
def isNegative (x : Binary64) : Bool := 0x8000000000000000 ≤ x.bits.toNat

/-- The number at a position of the ladder, with a sign. -/
def ofIndex (negative : Bool) (i : Nat) : Binary64 :=
  ⟨UInt64.ofNat (if negative then i + 0x8000000000000000 else i)⟩

/-! ### Classes and constants -/

/-- The positive zero. -/
def zero : Binary64 := ofIndex false 0

/-- An infinity. -/
def infinity (negative : Bool) : Binary64 := ofIndex negative infinityIndex

/-- The quiet NaN. -/
def nan : Binary64 := ofIndex false 0x7FF8000000000000

def isNaN (x : Binary64) : Bool := infinityIndex < x.index

def isInfinite (x : Binary64) : Bool := x.index == infinityIndex

def isFinite (x : Binary64) : Bool := x.index < infinityIndex

/-- Both zeros. -/
def isZero (x : Binary64) : Bool := x.index == 0

/-- The same magnitude with the other sign. -/
def neg (x : Binary64) : Binary64 := ofIndex (!x.isNegative) x.index

/-! ### Value and order -/

/-- The absolute value in units of the least positive magnitude. -/
def magnitude (x : Binary64) : Nat := rung x.index

/-- The value in units of the least positive magnitude; the two zeros have one value. -/
def value (x : Binary64) : Int := if x.isNegative then -(x.magnitude : Int) else x.magnitude

/-- Numeric equality: a NaN equals nothing, and the two zeros are equal. -/
def equal (x y : Binary64) : Bool := !x.isNaN && !y.isNaN && decide (x.value = y.value)

/-- Numeric order, strict: false as soon as one side is a NaN. -/
def less (x y : Binary64) : Bool := !x.isNaN && !y.isNaN && decide (x.value < y.value)

/-- Numeric order: false as soon as one side is a NaN. -/
def lessEqual (x y : Binary64) : Bool := !x.isNaN && !y.isNaN && decide (x.value ≤ y.value)

/-! ### Integers -/

/-- Whether an integer has sixty-four signed bits. -/
def fitsWord (n : Int) : Bool := -0x8000000000000000 ≤ n && n < 0x8000000000000000

/-- The integer that a number is, if it is one of sixty-four signed bits. -/
def toInteger? (x : Binary64) : Option Int :=
  let n := x.value / (one : Int)
  if x.isFinite && x.magnitude % one == 0 && fitsWord n then some n else none

/-! ### Laws of the ladder -/

/-- In the first group, every natural number is a rung. -/
theorem rung_of_lt {i : Nat} (h : i < 0x10000000000000) : rung i = i := if_pos h

/-- In a later group, a rung is its place in the group and a leading bit, shifted by the group. -/
theorem rung_mul_add {k f : Nat} (h : f < 0x10000000000000) :
    rung ((k + 1) * 0x10000000000000 + f) = (0x10000000000000 + f) <<< k := by
  have hi : ¬(k + 1) * 0x10000000000000 + f < 0x10000000000000 := by omega
  have hm : ((k + 1) * 0x10000000000000 + f) % 0x10000000000000 = f := by omega
  have hd : ((k + 1) * 0x10000000000000 + f) / 0x10000000000000 - 1 = k := by omega
  rw [rung, if_neg hi, hm, hd]

/-- A position in a later group has a group and a place in it. -/
theorem exists_eq_mul_add {i : Nat} (h : 0x10000000000000 ≤ i) :
    ∃ k f, f < 0x10000000000000 ∧ i = (k + 1) * 0x10000000000000 + f :=
  ⟨i / 0x10000000000000 - 1, i % 0x10000000000000, by omega, by omega⟩

theorem add_one_shiftLeft (a k : Nat) : (a + 1) <<< k = a <<< k + 1 <<< k := by
  simp only [Nat.shiftLeft_eq, Nat.add_mul]

theorem double_shiftLeft (a k : Nat) : (2 * a) <<< k = a <<< (k + 1) := by
  rw [Nat.shiftLeft_succ, Nat.shiftLeft_eq, Nat.shiftLeft_eq, Nat.mul_assoc]

/-- The step from a rung to the next one. -/
theorem rung_succ (i : Nat) : rung (i + 1) = rung i + 1 <<< (i / 0x10000000000000 - 1) := by
  by_cases h : i < 0x10000000000000
  · have h0 : i / 0x10000000000000 - 1 = 0 := by omega
    rw [rung_of_lt h, h0, Nat.shiftLeft_zero]
    by_cases h1 : i + 1 < 0x10000000000000
    · exact rung_of_lt h1
    · obtain rfl : i = 0xFFFFFFFFFFFFF := by omega
      exact rung_mul_add (k := 0) (f := 0) (by omega)
  · obtain ⟨k, f, hf, rfl⟩ := exists_eq_mul_add (Nat.le_of_not_lt h)
    have hd : ((k + 1) * 0x10000000000000 + f) / 0x10000000000000 - 1 = k := by omega
    rw [rung_mul_add hf, hd, ← add_one_shiftLeft]
    by_cases h1 : f + 1 < 0x10000000000000
    · rw [Nat.add_assoc, rung_mul_add h1, Nat.add_assoc]
    · obtain rfl : f = 0xFFFFFFFFFFFFF := by omega
      have he : (k + 1) * 0x10000000000000 + 0xFFFFFFFFFFFFF + 1
          = (k + 1 + 1) * 0x10000000000000 + 0 := by omega
      have hs : 0x10000000000000 + 0xFFFFFFFFFFFFF + 1 = 2 * 0x10000000000000 := by omega
      rw [he, rung_mul_add (by omega), hs, double_shiftLeft, Nat.add_zero]

theorem rung_lt_rung_succ (i : Nat) : rung i < rung (i + 1) := by
  have hp : 0 < 1 <<< (i / 0x10000000000000 - 1) := by
    rw [Nat.one_shiftLeft]
    exact Nat.two_pow_pos _
  rw [rung_succ]
  omega

/-- The ladder rises. -/
theorem rung_lt_rung {i j : Nat} (h : i < j) : rung i < rung j := by
  induction h with
  | refl => exact rung_lt_rung_succ i
  | step _ ih => exact Nat.lt_trans ih (rung_lt_rung_succ _)

end Binary64

end LuaKernel
