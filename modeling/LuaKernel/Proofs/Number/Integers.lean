import LuaKernel.Number.Rounding
import Mathlib.Algebra.Order.Ring.Nat
import Mathlib.Tactic.Ring

/-!
# Integers among the numbers

Which integers are numbers, and which numbers are integers.

The ladder of magnitudes rises, so a magnitude stands on one rung at most (`rung_injective`) and
rounding leaves every rung where it is (`nearestIndex_rung`).  The integers from `0` to `2⁵³` all
stand on the ladder, so rounding changes neither them nor their opposites (`value_ofInt`); `2⁵³ + 1`
is the first that does not (`rung_ne_succ_mul_one`).

A number that is no NaN is settled by its value, except that there are two zeros
(`eq_of_value_eq`).  The integer view of a number is exact in both directions
(`toInteger?_eq_some_iff`).
-/

namespace LuaKernel.Binary64

/-! ### The ladder is injective -/

theorem rung_injective {i j : Nat} (h : rung i = rung j) : i = j := by
  rcases Nat.lt_trichotomy i j with hlt | rfl | hgt
  · exact absurd h (Nat.ne_of_lt (rung_lt_rung hlt))
  · rfl
  · exact absurd h.symm (Nat.ne_of_lt (rung_lt_rung hgt))

theorem lt_of_rung_lt_rung {i j : Nat} (h : rung i < rung j) : i < j := by
  rcases Nat.lt_trichotomy i j with hlt | rfl | hgt
  · exact hlt
  · exact absurd h (Nat.lt_irrefl _)
  · exact absurd h (Nat.lt_asymm (rung_lt_rung hgt))

theorem rung_zero : rung 0 = 0 := rung_of_lt (by decide)

/-- The floor of a number between a rung and the next one. -/
theorem floorIndex_eq {i n : Nat} (hle : rung i ≤ n) (hlt : n < rung (i + 1)) :
    floorIndex n = i := by
  have hbelow : floorIndex n < i + 1 :=
    lt_of_rung_lt_rung (Nat.lt_of_le_of_lt (rung_floorIndex_le _) hlt)
  have habove : i < floorIndex n + 1 :=
    lt_of_rung_lt_rung (Nat.lt_of_le_of_lt hle (lt_rung_floorIndex_succ _))
  omega

/-- Less than half a step above a rung, rounding goes to the rung. -/
theorem nearestIndex_rung_add {i x : Nat} (hx : 2 * x < 1 <<< (i / 0x10000000000000 - 1)) :
    nearestIndex (rung i + x) 1 = min i infinityIndex := by
  have hstep := rung_succ i
  have hfloor : floorIndex (rung i + x) = i := floorIndex_eq (by omega) (by omega)
  have hbelow : 2 * (rung i + x) < 1 * (rung i + rung (i + 1)) := by omega
  simp only [nearestIndex, Nat.div_one, hfloor, if_pos hbelow]

/-- Rounding leaves every rung where it is, up to infinity. -/
theorem nearestIndex_rung_eq_min (i : Nat) : nearestIndex (rung i) 1 = min i infinityIndex := by
  have hstep : 2 * 0 < 1 <<< (i / 0x10000000000000 - 1) := by
    rw [Nat.one_shiftLeft]
    exact Nat.two_pow_pos _
  have h := nearestIndex_rung_add hstep
  rwa [Nat.add_zero] at h

theorem nearestIndex_rung {i : Nat} (h : i ≤ infinityIndex) : nearestIndex (rung i) 1 = i := by
  rw [nearestIndex_rung_eq_min, Nat.min_eq_left h]

/-! ### Position and sign -/

theorem toNat_bits_ofIndex {i : Nat} (negative : Bool) (h : i ≤ infinityIndex) :
    (ofIndex negative i).bits.toNat = if negative then i + 0x8000000000000000 else i := by
  have hi : i < 0x8000000000000000 := Nat.lt_of_le_of_lt h (by decide)
  apply UInt64.toNat_ofNat_of_lt'
  rw [UInt64.size]
  split <;> omega

theorem index_ofIndex {i : Nat} (negative : Bool) (h : i ≤ infinityIndex) :
    (ofIndex negative i).index = i := by
  have hi : i < 0x8000000000000000 := Nat.lt_of_le_of_lt h (by decide)
  rw [index, toNat_bits_ofIndex negative h]
  split <;> omega

theorem isNegative_ofIndex {i : Nat} (negative : Bool) (h : i ≤ infinityIndex) :
    (ofIndex negative i).isNegative = negative := by
  have hi : i < 0x8000000000000000 := Nat.lt_of_le_of_lt h (by decide)
  rw [isNegative, toNat_bits_ofIndex negative h]
  cases negative with
  | false => simpa using hi
  | true => simp

/-- Position and sign settle a number. -/
theorem eq_of_index_eq {x y : Binary64} (hi : x.index = y.index)
    (hs : x.isNegative = y.isNegative) : x = y := by
  obtain ⟨a⟩ := x
  obtain ⟨b⟩ := y
  have ha := a.toNat_lt
  have hb := b.toNat_lt
  -- The bits are the position, and `2⁶³` more when the sign is set.
  simp only [index, isNegative, decide_eq_decide] at hi hs
  have hab : a.toNat = b.toNat := by omega
  rw [UInt64.toNat_inj.1 hab]

/-! ### Values -/

theorem magnitude_eq_natAbs (x : Binary64) : x.magnitude = x.value.natAbs := by
  unfold value
  split <;> simp

/-- Two numbers of one value stand on one rung, and differ at most in the sign of a zero. -/
theorem index_eq_of_value_eq {x y : Binary64} (h : x.value = y.value) : x.index = y.index := by
  apply rung_injective
  change x.magnitude = y.magnitude
  rw [magnitude_eq_natAbs, magnitude_eq_natAbs, h]

theorem isZero_iff_value_eq_zero (x : Binary64) : x.isZero = true ↔ x.value = 0 := by
  have h : x.value = 0 ↔ x.magnitude = 0 := by rw [magnitude_eq_natAbs, Int.natAbs_eq_zero]
  rw [h, isZero, beq_iff_eq]
  constructor
  · intro hi
    rw [magnitude, hi, rung_zero]
  · intro hm
    exact rung_injective (hm.trans rung_zero.symm)

/-- A value other than zero settles a number. -/
theorem eq_of_value_eq {x y : Binary64} (h : x.value = y.value) (h0 : x.value ≠ 0) : x = y := by
  have hi := index_eq_of_value_eq h
  refine eq_of_index_eq hi ?_
  have hm : x.magnitude = y.magnitude := congrArg rung hi
  -- Of one magnitude and different signs, the two values would be opposite, so zero.
  unfold value at h h0
  cases hx : x.isNegative <;> cases hy : y.isNegative <;> simp only [hx, hy, if_true, if_false,
    Bool.false_eq_true] at h h0 ⊢ <;> omega

/-! ### Integers -/

theorem one_pos : 0 < one := by decide

theorem not_isNaN_ofInt (n : Int) : (ofInt n).isNaN = false := by
  have h : nearestIndex (n.natAbs * one) 1 ≤ infinityIndex := Nat.min_le_right _ _
  simp only [ofInt, ofRatio, isNaN, index_ofIndex _ h, decide_eq_false_iff_not, Nat.not_lt]
  exact h

/-- A number of at most fifty-three binary digits, shifted, has no other binary digits. -/
theorem two_pow_log2_sub_dvd {n : Nat} (h : n ≤ 2 ^ 53) (c : Nat) :
    2 ^ ((n * 2 ^ c).log2 - 52) ∣ n * 2 ^ c := by
  have hc : 0 < 2 ^ c := Nat.two_pow_pos c
  rcases Nat.lt_or_eq_of_le h with hlt | rfl
  · by_cases h0 : n = 0
    · simp [h0]
    · have hlog : (n * 2 ^ c).log2 < 53 + c := by
        rw [Nat.log2_lt (Nat.mul_ne_zero h0 (Nat.ne_of_gt hc)), pow_add]
        exact Nat.mul_lt_mul_of_pos_right hlt hc
      exact (Nat.pow_dvd_pow 2 (by omega)).trans (Nat.dvd_mul_left _ _)
  · -- `2⁵³` has a digit more than the others, but all of its digits but one are zero.
    rw [← pow_add, Nat.log2_two_pow]
    exact Nat.pow_dvd_pow 2 (by omega)

/-- The integers up to `2⁵³` stand on the ladder, below infinity. -/
theorem exists_rung_eq_mul_one {n : Nat} (h : n ≤ 2 ^ 53) :
    ∃ i, i < infinityIndex ∧ rung i = n * one := by
  have hdvd : 2 ^ ((n * one).log2 - 52) ∣ n * one := by
    rw [one, Nat.one_shiftLeft]
    -- The exponent stays a variable: nothing is to compute so large a power.
    generalize 1074 = c
    exact two_pow_log2_sub_dvd h c
  refine ⟨floorIndex (n * one), lt_of_rung_lt_rung ?_, ?_⟩
  · calc rung (floorIndex (n * one)) ≤ n * one := rung_floorIndex_le _
      _ ≤ 2 ^ 53 * one := Nat.mul_le_mul_right _ h
      _ < rung infinityIndex := by decide +kernel
  · rw [(rung_floorIndex (n * one)).1, Nat.shiftLeft_eq, Nat.shiftRight_eq_div_pow]
    exact Nat.div_mul_cancel hdvd

/-- Rounding does not change an integer that stands on the ladder. -/
theorem value_ofInt_of_rung {n : Int} {i : Nat} (hi : i < infinityIndex)
    (hr : rung i = n.natAbs * one) : (ofInt n).value = n * one ∧ (ofInt n).isFinite = true := by
  have he : ofInt n = ofIndex (decide (n < 0)) i := by
    rw [ofInt, ofRatio, ← hr, nearestIndex_rung (Nat.le_of_lt hi)]
  rw [he]
  refine ⟨?_, ?_⟩
  · rw [value, isNegative_ofIndex _ (Nat.le_of_lt hi), magnitude,
      index_ofIndex _ (Nat.le_of_lt hi), hr, Int.natCast_mul]
    by_cases hn : n < 0
    · rw [if_pos (decide_eq_true hn), ← Int.neg_mul, Int.ofNat_natAbs_of_nonpos (Int.le_of_lt hn),
        Int.neg_neg]
    · rw [if_neg (by simpa using hn), Int.natAbs_of_nonneg (Int.not_lt.1 hn)]
  · simp only [isFinite, index_ofIndex _ (Nat.le_of_lt hi), decide_eq_true_eq]
    exact hi

/-- Rounding does not change the integers from `-2⁵³` to `2⁵³`. -/
theorem value_ofInt {n : Int} (h : n.natAbs ≤ 2 ^ 53) :
    (ofInt n).value = n * one ∧ (ofInt n).isFinite = true := by
  obtain ⟨i, hi, hr⟩ := exists_rung_eq_mul_one h
  exact value_ofInt_of_rung hi hr

/-- Rounding does not change the natural numbers up to `2⁵³`. -/
theorem value_ofNat {n : Nat} (h : n ≤ 2 ^ 53) :
    (ofNat n).value = (n : Int) * one ∧ (ofNat n).isFinite = true :=
  value_ofInt (n := n) h

/-- Twice the step of the integers begins at `2⁵³`, so no number is the integer after it. -/
theorem rung_ne_succ_mul_one (i : Nat) : rung i ≠ (2 ^ 53 + 1) * one := by
  intro h
  have hbelow : rung 0x4340000000000000 < (2 ^ 53 + 1) * one := by decide +kernel
  have habove : (2 ^ 53 + 1) * one < rung (0x4340000000000000 + 1) := by decide +kernel
  rw [← h] at hbelow habove
  have hlow := lt_of_rung_lt_rung hbelow
  have hhigh := lt_of_rung_lt_rung habove
  omega

/-- The integer view of a number is exact: a number is seen as an integer when it is that integer,
and the integer has sixty-four signed bits. -/
theorem toInteger?_eq_some_iff {x : Binary64} {n : Int} :
    x.toInteger? = some n ↔ x.isFinite = true ∧ x.value = n * one ∧ fitsWord n = true := by
  have hone : (one : Int) ≠ 0 := by exact_mod_cast Nat.ne_of_gt one_pos
  have hmod : x.magnitude % one = 0 ↔ (one : Int) ∣ x.value := by
    rw [magnitude_eq_natAbs, ← Nat.dvd_iff_mod_eq_zero, Int.natCast_dvd]
  unfold toInteger?
  simp only [Bool.and_eq_true, beq_iff_eq, hmod]
  constructor
  · intro h
    split at h
    · rename_i hc
      obtain ⟨⟨hf, hd⟩, hw⟩ := hc
      obtain rfl := Option.some.inj h
      exact ⟨hf, (Int.ediv_mul_cancel hd).symm, hw⟩
    · cases h
  · rintro ⟨hf, hv, hw⟩
    have hq : x.value / (one : Int) = n := by rw [hv, Int.mul_ediv_cancel n hone]
    rw [hq, if_pos ⟨⟨hf, hv ▸ Int.dvd_mul_left n _⟩, hw⟩]

/-- The numbers of the integers up to `2⁵³` in magnitude are seen as these integers. -/
theorem toInteger?_ofInt {n : Int} (h : n.natAbs ≤ 2 ^ 53) : (ofInt n).toInteger? = some n := by
  obtain ⟨hv, hf⟩ := value_ofInt h
  refine toInteger?_eq_some_iff.2 ⟨hf, hv, ?_⟩
  simp only [fitsWord, Bool.and_eq_true, decide_eq_true_eq]
  omega

theorem toInteger?_ofNat {n : Nat} (h : n ≤ 2 ^ 53) : (ofNat n).toInteger? = some (n : Int) :=
  toInteger?_ofInt (n := n) h

end LuaKernel.Binary64
