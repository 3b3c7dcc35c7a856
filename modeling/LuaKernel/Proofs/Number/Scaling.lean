import LuaKernel.Proofs.Number.RoundTrip

/-!
# Rounding integers

How an integer of more than fifty-three binary digits is rounded: it is divided by the power of two
that leaves so many digits, and the quotient goes to the nearest integer, the middle to the even one
(`halfEven`, `nearestIndex_mul_one`).  A power of two as a factor moves a number on the ladder by
whole groups (`rung_add_groups`).

To drop the last digits of a number before it is rounded is to round twice.  This changes the result
where what is left is in the middle, and only there (`halfEven_mul_add`).
-/

namespace LuaKernel.Binary64

/-! ### Groups of the ladder -/

/-- So many groups further on, the rungs are larger by so many factors of two. -/
theorem rung_add_groups {i : Nat} (h : 0x10000000000000 ≤ i) (c : Nat) :
    rung (i + c * 0x10000000000000) = 2 ^ c * rung i := by
  obtain ⟨k, f, hf, rfl⟩ := exists_eq_mul_add h
  have hgroup : (k + 1) * 0x10000000000000 + f + c * 0x10000000000000 =
      (k + c + 1) * 0x10000000000000 + f := by omega
  rw [hgroup, rung_mul_add hf, rung_mul_add hf, Nat.shiftLeft_eq, Nat.shiftLeft_eq, Nat.pow_add]
  ring

/-- So a rung times a power of two is rounded to a rung, or to infinity. -/
theorem nearestIndex_two_pow_mul_rung {i : Nat} (h : 0x10000000000000 ≤ i) (c : Nat) :
    nearestIndex (2 ^ c * rung i) 1 = min (i + c * 0x10000000000000) infinityIndex := by
  rw [← rung_add_groups h, nearestIndex_rung_eq_min]

/-- What is not below infinity is rounded to it. -/
theorem nearestIndex_of_le {n : Nat} (h : rung infinityIndex ≤ n) :
    nearestIndex n 1 = infinityIndex := by
  have hfloor : infinityIndex < floorIndex n + 1 :=
    lt_of_rung_lt_rung (Nat.lt_of_le_of_lt h (lt_rung_floorIndex_succ n))
  simp only [nearestIndex, Nat.div_one]
  split
  · exact Nat.min_eq_right (by omega)
  · split
    · exact Nat.min_eq_right (by omega)
    · exact Nat.min_eq_right (by omega)

/-! ### Quotients to the nearest integer -/

/-- The integer nearest to a quotient; the middle of two goes to the even one. -/
def halfEven (n d : Nat) : Nat :=
  if 2 * (n % d) < d then n / d
  else if d < 2 * (n % d) then n / d + 1
  else n / d + n / d % 2

theorem le_halfEven (n d : Nat) : n / d ≤ halfEven n d := by
  unfold halfEven
  split
  · exact Nat.le_refl _
  · split
    · exact Nat.le_succ _
    · exact Nat.le_add_right _ _

theorem halfEven_le (n d : Nat) : halfEven n d ≤ n / d + 1 := by
  unfold halfEven
  split
  · exact Nat.le_succ _
  · split
    · exact Nat.le_refl _
    · omega

theorem halfEven_of_tie {n d : Nat} (h : 2 * (n % d) = d) : halfEven n d = n / d + n / d % 2 := by
  rw [halfEven, if_neg (by omega), if_neg (by omega)]

/-- What is dropped before a quotient is rounded matters where the rest is in the middle. -/
theorem halfEven_mul_add {s e p r : Nat} (hr : r < s) (he : 0 < e) :
    halfEven (s * p + r) (s * (2 * e)) =
      if p % (2 * e) = e ∧ r ≠ 0 then p / (2 * e) + 1 else halfEven p (2 * e) := by
  have hs : 0 < s := Nat.lt_of_le_of_lt (Nat.zero_le r) hr
  have hdiv : (s * p + r) / s = p := by rw [Nat.mul_add_div hs, Nat.div_eq_of_lt hr, Nat.add_zero]
  have hrest : (s * p + r) % s = r := by rw [Nat.mul_add_mod, Nat.mod_eq_of_lt hr]
  have hquotient : (s * p + r) / (s * (2 * e)) = p / (2 * e) := by
    rw [← Nat.div_div_eq_div_mul, hdiv]
  have hmod : (s * p + r) % (s * (2 * e)) = r + s * (p % (2 * e)) := by
    rw [Nat.mod_mul, hdiv, hrest]
  unfold halfEven
  rw [hquotient, hmod]
  generalize p % (2 * e) = m
  have hfactor : s * (2 * e) = 2 * (s * e) := by ring
  rcases Nat.lt_trichotomy m e with hlt | rfl | hgt
  · have hle : s * m + s ≤ s * e := by
      rw [← Nat.mul_succ]
      exact Nat.mul_le_mul_left s hlt
    rw [if_pos (by omega), if_neg (by omega), if_pos (by omega)]
  · by_cases h0 : r = 0
    · rw [if_neg (by omega), if_neg (by omega), if_neg (by omega), if_neg (by omega),
        if_neg (by omega)]
    · rw [if_neg (by omega), if_pos (by omega), if_pos ⟨rfl, h0⟩]
  · have hlt : s * e < s * m := Nat.mul_lt_mul_of_pos_left hgt hs
    rw [if_neg (by omega), if_pos (by omega), if_neg (by omega), if_neg (by omega),
      if_pos (by omega)]

/-! ### Integers -/

theorem log2_mul_two_pow {n : Nat} (hn : n ≠ 0) (e : Nat) : (n * 2 ^ e).log2 = n.log2 + e := by
  have hpos : 0 < 2 ^ e := Nat.two_pow_pos e
  refine (Nat.log2_eq_iff (Nat.mul_ne_zero hn (Nat.ne_of_gt hpos))).2 ⟨?_, ?_⟩
  · rw [Nat.pow_add]
    exact Nat.mul_le_mul_right _ (Nat.log2_self_le hn)
  · rw [Nat.add_right_comm, Nat.pow_add]
    exact Nat.mul_lt_mul_of_pos_right Nat.lt_log2_self hpos

theorem log2_div_two_pow {n k : Nat} (hn : n ≠ 0) (hk : k ≤ n.log2) :
    (n / 2 ^ k).log2 = n.log2 - k := by
  have hpos : 0 < 2 ^ k := Nat.two_pow_pos k
  have hlow : 2 ^ (n.log2 - k) ≤ n / 2 ^ k := by
    rw [Nat.le_div_iff_mul_le hpos, ← Nat.pow_add, Nat.sub_add_cancel hk]
    exact Nat.log2_self_le hn
  refine (Nat.log2_eq_iff (Nat.ne_of_gt (Nat.lt_of_lt_of_le (Nat.two_pow_pos _) hlow))).2 ⟨hlow, ?_⟩
  rw [Nat.div_lt_iff_lt_mul hpos, ← Nat.pow_add, Nat.add_right_comm, Nat.sub_add_cancel hk]
  exact Nat.lt_log2_self

/-- How many binary digits an integer has beyond the fifty-three of a number. -/
def excess (n : Nat) : Nat := n.log2 - 52

/-- With its excess dropped, an integer has fifty-three binary digits. -/
theorem div_excess_bounds {n : Nat} (hn : 2 ^ 52 ≤ n) :
    2 ^ 52 ≤ n / 2 ^ excess n ∧ n / 2 ^ excess n < 2 ^ 53 := by
  have h0 : n ≠ 0 := by omega
  have hlog : 52 ≤ n.log2 := (Nat.le_log2 h0).2 hn
  have hpos : 0 < 2 ^ excess n := Nat.two_pow_pos _
  have hlow : 52 + excess n = n.log2 := by unfold excess; omega
  have hhigh : 53 + excess n = n.log2 + 1 := by omega
  constructor
  · rw [Nat.le_div_iff_mul_le hpos, ← Nat.pow_add, hlow]
    exact Nat.log2_self_le h0
  · rw [Nat.div_lt_iff_lt_mul hpos, ← Nat.pow_add, hhigh]
    exact Nat.lt_log2_self

/-- The floor of an integer in small units, and the step to the next rung. -/
theorem floorIndex_mul_two_pow {n : Nat} (hn : 2 ^ 52 ≤ n) (e : Nat) :
    floorIndex (n * 2 ^ e) = (excess n + e) * 0x10000000000000 + n / 2 ^ excess n ∧
      rung (floorIndex (n * 2 ^ e)) = n / 2 ^ excess n * 2 ^ excess n * 2 ^ e ∧
      rung (floorIndex (n * 2 ^ e) + 1) = (n / 2 ^ excess n + 1) * 2 ^ excess n * 2 ^ e := by
  have h0 : n ≠ 0 := by omega
  have hlog : 52 ≤ n.log2 := (Nat.le_log2 h0).2 hn
  have hshift : (n * 2 ^ e).log2 - 52 = excess n + e := by
    rw [log2_mul_two_pow h0, excess]
    omega
  have hquotient : (n * 2 ^ e) >>> (excess n + e) = n / 2 ^ excess n := by
    rw [Nat.shiftRight_eq_div_pow, Nat.pow_add, Nat.mul_div_mul_right _ _ (Nat.two_pow_pos e)]
  obtain ⟨hrung, hgroup⟩ := rung_floorIndex (n * 2 ^ e)
  rw [hshift, hquotient, Nat.shiftLeft_eq, Nat.pow_add, ← Nat.mul_assoc] at hrung
  refine ⟨?_, hrung, ?_⟩
  · simp only [floorIndex, hshift, hquotient]
  · rw [rung_succ, hgroup, hrung, hshift, Nat.one_shiftLeft, Nat.pow_add]
    ring

/-- Rounding an integer in small units is rounding a quotient. -/
theorem nearestIndex_mul_two_pow {n : Nat} (hn : 2 ^ 52 ≤ n) (e : Nat) :
    nearestIndex (n * 2 ^ e) 1 =
      min ((excess n + e) * 0x10000000000000 + halfEven n (2 ^ excess n)) infinityIndex := by
  obtain ⟨hfloor, hrung, hnext⟩ := floorIndex_mul_two_pow hn e
  have hpos : 0 < 2 ^ e := Nat.two_pow_pos e
  have hlt : ∀ a b : Nat, a * 2 ^ e < b * 2 ^ e ↔ a < b := fun a b =>
    ⟨Nat.lt_of_mul_lt_mul_right, fun h => Nat.mul_lt_mul_of_pos_right h hpos⟩
  -- The middle of the two rungs, with the units taken out.
  have hmiddle : rung (floorIndex (n * 2 ^ e)) + rung (floorIndex (n * 2 ^ e) + 1) =
      (2 * (n / 2 ^ excess n * 2 ^ excess n) + 2 ^ excess n) * 2 ^ e := by
    rw [hrung, hnext]
    ring
  have hsplit : 2 * (n * 2 ^ e) =
      (2 * (n / 2 ^ excess n * 2 ^ excess n) + 2 * (n % 2 ^ excess n)) * 2 ^ e := by
    rw [← Nat.mul_add, Nat.mul_comm (n / _), Nat.div_add_mod]
    ring
  simp only [nearestIndex, Nat.div_one, Nat.one_mul, hmiddle, hsplit, hlt,
    Nat.add_lt_add_iff_left, halfEven]
  rw [hfloor]
  generalize n / 2 ^ excess n = q
  have hparity : ((excess n + e) * 0x10000000000000 + q) % 2 = q % 2 := by omega
  rw [hparity]
  by_cases hlow : 2 * (n % 2 ^ excess n) < 2 ^ excess n
  · rw [if_pos hlow, if_pos hlow]
  · rw [if_neg hlow, if_neg hlow]
    by_cases hhigh : 2 ^ excess n < 2 * (n % 2 ^ excess n)
    · rw [if_pos hhigh, if_pos hhigh, Nat.add_assoc]
    · rw [if_neg hhigh, if_neg hhigh, Nat.add_assoc]

theorem nearestIndex_mul_one {n : Nat} (hn : 2 ^ 52 ≤ n) :
    nearestIndex (n * one) 1 =
      min ((excess n + 1074) * 0x10000000000000 + halfEven n (2 ^ excess n)) infinityIndex := by
  rw [one, Nat.one_shiftLeft]
  generalize 1074 = e
  exact nearestIndex_mul_two_pow hn e

end LuaKernel.Binary64
