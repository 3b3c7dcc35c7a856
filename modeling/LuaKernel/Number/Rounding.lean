import LuaKernel.Number.Binary64

/-!
# Rounding

Every arithmetic result is the exact result, rounded once to the nearest number.

An exact nonnegative magnitude is a quotient `num / den` in units of the least positive magnitude.
`floorIndex` finds the last rung that is not above it, and `nearestIndex` compares the quotient
with the middle between this rung and the next: a quotient in the middle goes to the rung with the
even position.  Infinity is a rung like the others, so overflow needs no rule of its own; what lies
beyond it is infinity too.
-/

namespace LuaKernel.Binary64

/-- The position of the last rung that is at most `n`. -/
def floorIndex (n : Nat) : Nat :=
  let k := n.log2 - 52
  k * 0x10000000000000 + n >>> k

/-- The position of the rung nearest to `num / den`; the middle of two goes to the even one. -/
def nearestIndex (num den : Nat) : Nat :=
  let i := floorIndex (num / den)
  let middle := den * (rung i + rung (i + 1))
  let j := if 2 * num < middle then i else if middle < 2 * num then i + 1 else i + i % 2
  min j infinityIndex

/-- The number nearest to `± num / den` units. -/
def ofRatio (negative : Bool) (num den : Nat) : Binary64 :=
  ofIndex negative (nearestIndex num den)

/-- The number nearest to an integer. -/
def ofInt (n : Int) : Binary64 := ofRatio (n < 0) (n.natAbs * one) 1

/-- The number nearest to a natural number. -/
def ofNat (n : Nat) : Binary64 := ofInt n

/-- The sum.  An exact zero is positive unless both terms are negative. -/
def add (x y : Binary64) : Binary64 :=
  if x.isNaN || y.isNaN then nan
  else if x.isInfinite then
    if y.isInfinite && x.isNegative != y.isNegative then nan else x
  else if y.isInfinite then y
  else
    let sum := x.value + y.value
    if sum = 0 then ofIndex (x.isNegative && y.isNegative) 0
    else ofRatio (sum < 0) sum.natAbs 1

/-- The product. -/
def mul (x y : Binary64) : Binary64 :=
  let negative := x.isNegative != y.isNegative
  if x.isNaN || y.isNaN then nan
  else if x.isInfinite || y.isInfinite then
    if x.isZero || y.isZero then nan else infinity negative
  else ofRatio negative (x.magnitude * y.magnitude) one

/-- The number nearest to `± digits · 10 ^ exponent`.

An exponent so large or so small that the result is infinity or zero whatever the digits is decided
first, so that no power larger than the text of the digits calls for is ever formed. -/
def ofDecimal (negative : Bool) (digits : Nat) (exponent : Int) : Binary64 :=
  if digits = 0 then ofIndex negative 0
  else if 310 ≤ exponent then infinity negative
  else if exponent + digits.log2 < -330 then ofIndex negative 0
  else if 0 ≤ exponent then ofRatio negative (digits * Nat.pow 10 exponent.toNat * one) 1
  else ofRatio negative (digits * one) (Nat.pow 10 (-exponent).toNat)

/-! ### Laws of the floor -/

/-- The floor of a number has its leading binary digits, and zeros for the others. -/
theorem rung_floorIndex (n : Nat) :
    rung (floorIndex n) = (n >>> (n.log2 - 52)) <<< (n.log2 - 52) ∧
      floorIndex n / 0x10000000000000 - 1 = n.log2 - 52 := by
  unfold floorIndex
  by_cases h : n < 0x20000000000000
  · have hk : n.log2 - 52 = 0 := by
      by_cases hn : n = 0
      · simp [hn]
      · have : n.log2 < 53 := (Nat.log2_lt hn).2 h
        omega
    simp only [hk, Nat.zero_mul, Nat.zero_add, Nat.shiftRight_zero, Nat.shiftLeft_zero]
    refine ⟨?_, by omega⟩
    by_cases h2 : n < 0x10000000000000
    · exact rung_of_lt h2
    · have hr : rung ((0 + 1) * 0x10000000000000 + (n - 0x10000000000000)) = _ :=
        rung_mul_add (by omega)
      have he : (0 + 1) * 0x10000000000000 + (n - 0x10000000000000) = n := by omega
      rw [he, Nat.shiftLeft_zero] at hr
      omega
  · have hn : n ≠ 0 := by omega
    obtain ⟨k, hk⟩ : ∃ k, n.log2 = 52 + k := by
      have : 53 ≤ n.log2 := (Nat.le_log2 hn).2 (by omega)
      exact ⟨n.log2 - 52, by omega⟩
    have hk' : n.log2 - 52 = k := by omega
    have hq0 : 0x10000000000000 ≤ n >>> k := by
      have hlo : 2 ^ (52 + k) ≤ n := hk ▸ Nat.log2_self_le hn
      rw [Nat.pow_add] at hlo
      rw [Nat.shiftRight_eq_div_pow]
      exact (Nat.le_div_iff_mul_le (Nat.two_pow_pos k)).2 hlo
    have hq1 : n >>> k < 0x20000000000000 := by
      have hhi : n < 2 ^ (53 + k) := by
        have he : n.log2 + 1 = 53 + k := by omega
        exact he ▸ Nat.lt_log2_self
      rw [Nat.pow_add] at hhi
      rw [Nat.shiftRight_eq_div_pow]
      exact (Nat.div_lt_iff_lt_mul (Nat.two_pow_pos k)).2 hhi
    simp only [hk']
    generalize n >>> k = q at hq0 hq1 ⊢
    have he : k * 0x10000000000000 + q = (k + 1) * 0x10000000000000 + (q - 0x10000000000000) := by
      omega
    have hs : 0x10000000000000 + (q - 0x10000000000000) = q := by omega
    refine ⟨?_, by omega⟩
    rw [he, rung_mul_add (by omega), hs]

theorem shiftRight_shiftLeft_le (n k : Nat) : (n >>> k) <<< k ≤ n := by
  rw [Nat.shiftLeft_eq, Nat.shiftRight_eq_div_pow]
  exact Nat.div_mul_le_self _ _

theorem lt_shiftRight_shiftLeft_add (n k : Nat) : n < (n >>> k) <<< k + 1 <<< k := by
  rw [Nat.shiftLeft_eq, Nat.shiftRight_eq_div_pow, Nat.one_shiftLeft]
  exact Nat.lt_div_mul_add (Nat.two_pow_pos k)

/-- The floor is at most the number. -/
theorem rung_floorIndex_le (n : Nat) : rung (floorIndex n) ≤ n := by
  rw [(rung_floorIndex n).1]
  exact shiftRight_shiftLeft_le _ _

/-- The rung after the floor is above the number. -/
theorem lt_rung_floorIndex_succ (n : Nat) : n < rung (floorIndex n + 1) := by
  rw [rung_succ, (rung_floorIndex n).1, (rung_floorIndex n).2]
  exact lt_shiftRight_shiftLeft_add _ _

end LuaKernel.Binary64
