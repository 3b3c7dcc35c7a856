import LuaKernel.Proofs.Number.Grammar
import LuaKernel.Proofs.Number.Scaling

/-!
# Hexadecimal and decimal numerals

The decimal numeral of an integer is rounded once.  A hexadecimal numeral is accumulated digit by
digit, and each step rounds; so the two need not be read as one number.

The digits are exact up to the first ones that make `2⁵³` or more (`Numeral.leading`).  These are
rounded, and from then on each further digit is less than half a step and is lost, whatever it is
(`Numeral.hexStep_hexIndex`).  So a hexadecimal numeral is read as its leading digits, rounded, with
zeros in place of the others (`Numeral.hexIndex`).  This is the integer itself, rounded, unless the
leading digits are in the middle between two numbers, the lower of which is even, and not all of the
other digits are zeros (`Numeral.Misread`).  Then the hexadecimal numeral is read as the lower
number, and the decimal one as the higher (`Numeral.hexadecimal_eq_decimal_iff`).
-/

namespace LuaKernel

/-! ### One digit -/

namespace Binary64

theorem magnitude_ofNat {n : Nat} (h : n ≤ 2 ^ 53) : (ofNat n).magnitude = n * one := by
  rw [magnitude_eq_natAbs, (value_ofNat h).1, Int.natAbs_mul]
  rfl

theorem magnitude_ofIndex {i : Nat} (negative : Bool) (hi : i ≤ infinityIndex) :
    (ofIndex negative i).magnitude = rung i := by rw [magnitude, index_ofIndex negative hi]

theorem value_ofIndex_false {i : Nat} (hi : i ≤ infinityIndex) :
    (ofIndex false i).value = rung i := by
  rw [value, isNegative_ofIndex false hi, magnitude_ofIndex false hi]
  rfl

theorem neg_ofIndex_false {i : Nat} (hi : i ≤ infinityIndex) :
    (ofIndex false i).neg = ofIndex true i := by
  rw [neg, isNegative_ofIndex false hi, index_ofIndex false hi]
  rfl

/-- A product with sixteen is rounded once. -/
theorem mul_ofNat_sixteen {i : Nat} (hi : i ≤ infinityIndex) :
    (ofNat 16).mul (ofIndex false i) = ofIndex false (nearestIndex (16 * rung i) 1) := by
  have hsixteen : (ofNat 16).isNaN = false ∧ (ofNat 16).isInfinite = false ∧
      (ofNat 16).isZero = false ∧ (ofNat 16).isNegative = false := by decide +kernel
  obtain ⟨hnan, hinf, hzero, hneg⟩ := hsixteen
  have hindex := index_ofIndex false hi
  have hnan' : (ofIndex false i).isNaN = false := by
    simp only [isNaN, hindex, decide_eq_false_iff_not]
    omega
  simp only [mul, hnan, hnan', hneg, isNegative_ofIndex false hi, Bool.or_self, Bool.false_eq_true,
    if_false, bne_self_eq_false, hinf, Bool.false_or, hzero]
  rcases Nat.lt_or_eq_of_le hi with hlt | rfl
  · have hfinite : (ofIndex false i).isInfinite = false := by
      simp only [isInfinite, hindex, beq_eq_false_iff_ne]
      omega
    rw [hfinite, if_neg Bool.false_ne_true, magnitude_ofNat (by decide), magnitude_ofIndex false hi,
      ofRatio, Nat.mul_right_comm, nearestIndex_mul one_pos]
  · have hinfinite : (ofIndex false infinityIndex).isInfinite = true := by decide
    have hnonzero : (ofIndex false infinityIndex).isZero = false := by decide
    rw [hinfinite, if_pos rfl, hnonzero, if_neg Bool.false_ne_true,
      nearestIndex_of_le (Nat.le_mul_of_pos_left _ (by decide)), infinity]

/-- A sum with a digit is rounded once. -/
theorem add_ofNat {i d : Nat} (hi : i ≤ infinityIndex) (hd : d ≤ 2 ^ 53) :
    (ofIndex false i).add (ofNat d) = ofIndex false (nearestIndex (rung i + d * one) 1) := by
  obtain ⟨hvalue, hfinite⟩ := value_ofNat hd
  have hindex := index_ofIndex false hi
  simp only [isFinite, decide_eq_true_eq] at hfinite
  have hnan : (ofIndex false i).isNaN = false := by
    simp only [isNaN, hindex, decide_eq_false_iff_not]
    omega
  have hnan' : (ofNat d).isNaN = false := by
    simp only [isNaN, decide_eq_false_iff_not]
    omega
  have hinf' : (ofNat d).isInfinite = false := by
    simp only [isInfinite, beq_eq_false_iff_ne]
    omega
  simp only [add, hnan, hnan', hinf', Bool.or_self, Bool.false_eq_true, if_false, Bool.false_and]
  rcases Nat.lt_or_eq_of_le hi with hlt | rfl
  · have hinf : (ofIndex false i).isInfinite = false := by
      simp only [isInfinite, hindex, beq_eq_false_iff_ne]
      omega
    have hsum : (ofIndex false i).value + (ofNat d).value = ((rung i + d * one : Nat) : Int) := by
      rw [value_ofIndex_false hi, hvalue]
      push_cast
      rfl
    rw [hinf, if_neg Bool.false_ne_true, hsum, isNegative_ofIndex false hi, Bool.false_and]
    generalize rung i + d * one = n
    by_cases hn : n = 0
    · have hzero : nearestIndex 0 1 = 0 := by decide
      rw [hn, hzero]
      rfl
    · have hpos : decide ((n : Int) < 0) = false := by simp
      rw [if_neg (by exact_mod_cast hn), ofRatio, hpos, Int.natAbs_natCast]
  · have hinf : (ofIndex false infinityIndex).isInfinite = true := by decide
    rw [hinf, if_pos rfl, nearestIndex_of_le (Nat.le_add_right _ _)]

end Binary64

namespace Numeral

open Binary64

/-- One more digit is one rounding, of sixteen times the number and the digit. -/
theorem hexStep_ofIndex {i d : Nat} (hi : i ≤ infinityIndex) (hgroup : i = 0 ∨ 0x10000000000000 ≤ i)
    (hd : d ≤ 2 ^ 53) :
    hexStep (ofIndex false i) d = ofIndex false (nearestIndex (16 * rung i + d * one) 1) := by
  rw [hexStep, mul_ofNat_sixteen hi, add_ofNat (nearestIndex_le _ _) hd]
  rcases hgroup with rfl | hgroup
  · rw [rung_zero, Nat.mul_zero, ← rung_zero, nearestIndex_rung (Nat.zero_le _)]
  · -- Sixteen times the number is a number, or infinite and so is the sum.
    have hsixteen : 16 * rung i = rung (i + 4 * 0x10000000000000) := (rung_add_groups hgroup 4).symm
    rw [hsixteen, nearestIndex_rung_eq_min]
    rcases Nat.le_total (i + 4 * 0x10000000000000) infinityIndex with hle | hge
    · rw [Nat.min_eq_left hle]
    · have hrung : rung infinityIndex ≤ rung (i + 4 * 0x10000000000000) := by
        rcases Nat.lt_or_eq_of_le hge with hlt | heq
        · exact Nat.le_of_lt (rung_lt_rung hlt)
        · rw [heq]
      rw [Nat.min_eq_right hge, nearestIndex_of_le (Nat.le_add_right _ _),
        nearestIndex_of_le (Nat.le_trans hrung (Nat.le_add_right _ _))]

/-! ### All digits -/

/-- How many hexadecimal digits follow the first ones that make `2⁵³` or more. -/
def trailing (n : Nat) : Nat := (n.log2 - 53) / 4

/-- The first hexadecimal digits of a number that make `2⁵³` or more, or all of them. -/
def leading (n : Nat) : Nat := n / 16 ^ trailing n

/-- The position of the number that the hexadecimal numerals of a number are read as: its leading
digits are rounded, and the others count as zeros. -/
def hexIndex (n : Nat) : Nat :=
  nearestIndex (16 ^ trailing n * rung (nearestIndex (leading n * one) 1)) 1

variable {n d : Nat}

theorem hexIndex_le (n : Nat) : hexIndex n ≤ infinityIndex := nearestIndex_le _ _

theorem trailing_of_lt (hn : n < 2 ^ 57) : trailing n = 0 := by
  have hlog : n.log2 < 57 := by
    by_cases h0 : n = 0
    · rw [h0]
      decide
    · exact (Nat.log2_lt h0).2 hn
  unfold trailing
  omega

/-- Up to thirteen digits and some of fourteen there is nothing to lose. -/
theorem hexIndex_of_lt (hn : n < 2 ^ 57) : hexIndex n = nearestIndex (n * one) 1 := by
  rw [hexIndex, leading, trailing_of_lt hn, Nat.pow_zero, Nat.div_one, Nat.one_mul,
    nearestIndex_rung (nearestIndex_le _ _)]

/-- The leading digits have at least one binary digit more than a number, and at most four. -/
theorem leading_bounds (hn : 2 ^ 53 ≤ n) :
    2 ^ 53 ≤ leading n ∧ 1 ≤ excess (leading n) ∧ excess (leading n) ≤ 4 ∧
      excess n = excess (leading n) + 4 * trailing n := by
  have h0 : n ≠ 0 := by omega
  have hlog : 53 ≤ n.log2 := (Nat.le_log2 h0).2 hn
  have hpow : (16 : Nat) ^ trailing n = 2 ^ (4 * trailing n) := by rw [Nat.pow_mul]
  have hle : 4 * trailing n ≤ n.log2 - 53 := by
    unfold trailing
    omega
  have hleading : (leading n).log2 = n.log2 - 4 * trailing n := by
    rw [leading, hpow, log2_div_two_pow h0 (by omega)]
  have hleading0 : leading n ≠ 0 := by
    intro h
    rw [h, Nat.log2_zero] at hleading
    omega
  refine ⟨(Nat.le_log2 hleading0).1 (by omega), ?_, ?_, ?_⟩
  · unfold excess
    omega
  · unfold excess
    unfold trailing at hleading
    omega
  · unfold excess
    omega

/-- From `2⁵³` on, the position is in the group of the number itself. -/
theorem hexIndex_of_le (hn : 2 ^ 53 ≤ n) :
    hexIndex n = min ((excess n + 1074) * 0x10000000000000 +
      halfEven (leading n) (2 ^ excess (leading n))) infinityIndex := by
  obtain ⟨hleading, -, hle, hexcess⟩ := leading_bounds hn
  have hlarge : 2 ^ 52 ≤ leading n := Nat.le_trans (by decide) hleading
  have hsmall := (halfEven_le (leading n) (2 ^ excess (leading n)))
  have hbound := (div_excess_bounds hlarge).2
  have hpow : (16 : Nat) ^ trailing n = 2 ^ (4 * trailing n) := by rw [Nat.pow_mul]
  rw [hexIndex, nearestIndex_mul_one hlarge, hpow, hexcess]
  generalize halfEven (leading n) (2 ^ excess (leading n)) = q at hsmall ⊢
  have hfinite : (excess (leading n) + 1074) * 0x10000000000000 + q ≤ infinityIndex := by
    unfold infinityIndex
    omega
  have hgroups :
      (excess (leading n) + 1074) * 0x10000000000000 + q + 4 * trailing n * 0x10000000000000 =
      (excess (leading n) + 4 * trailing n + 1074) * 0x10000000000000 + q := by ring
  rw [Nat.min_eq_left hfinite, nearestIndex_two_pow_mul_rung (by omega), hgroups]

/-- Once the digits make `2⁵³` or more, one more digit leaves the leading ones as they are. -/
theorem leading_step (hn : 2 ^ 53 ≤ n) (hd : d < 16) :
    leading (16 * n + d) = leading n ∧ excess (16 * n + d) = excess n + 4 := by
  have h0 : n ≠ 0 := by omega
  have hlog : 53 ≤ n.log2 := (Nat.le_log2 h0).2 hn
  have hlog' : (16 * n + d).log2 = n.log2 + 4 := by
    have hlow := Nat.log2_self_le h0
    have hhigh := Nat.lt_log2_self (n := n)
    refine (Nat.log2_eq_iff (by omega)).2 ⟨?_, ?_⟩
    · rw [Nat.pow_add]
      omega
    · rw [Nat.add_right_comm, Nat.pow_add]
      omega
  have htrailing : trailing (16 * n + d) = trailing n + 1 := by
    unfold trailing
    omega
  refine ⟨?_, ?_⟩
  · rw [leading, htrailing, Nat.pow_succ, Nat.mul_comm (16 ^ _), ← Nat.div_div_eq_div_mul, leading]
    congr 1
    omega
  · unfold excess
    omega

/-- From `2⁵³` on, the steps of the ladder are two or more. -/
theorem le_hexIndex (hn : 2 ^ 53 ≤ n) : 1076 * 0x10000000000000 ≤ hexIndex n := by
  obtain ⟨hlarge, hpos, -, hgroups⟩ := leading_bounds hn
  have hbound := (div_excess_bounds (Nat.le_trans (by decide) hlarge)).1
  have hlow := le_halfEven (leading n) (2 ^ excess (leading n))
  rw [hexIndex_of_le hn]
  refine Nat.le_min.2 ⟨?_, by decide⟩
  generalize halfEven (leading n) (2 ^ excess (leading n)) = q at hlow ⊢
  generalize leading n / 2 ^ excess (leading n) = p at hbound hlow
  omega

/-- There, a hexadecimal digit is less than half of the step from sixteen times a number to the
next. -/
theorem two_mul_digit_lt {i : Nat} (hi : 1076 * 0x10000000000000 ≤ i) (hd : d < 16) :
    2 * (d * one) < 1 <<< ((i + 4 * 0x10000000000000) / 0x10000000000000 - 1) := by
  have hshift : 1079 ≤ (i + 4 * 0x10000000000000) / 0x10000000000000 - 1 := by omega
  have hthirty : 2 * (15 * one) < 1 <<< 1079 := by decide +kernel
  have hdigit : d * one ≤ 15 * one := Nat.mul_le_mul_right one (Nat.le_of_lt_succ hd)
  generalize (i + 4 * 0x10000000000000) / 0x10000000000000 - 1 = k at hshift ⊢
  generalize 1079 = k' at hshift hthirty
  calc 2 * (d * one) ≤ 2 * (15 * one) := Nat.mul_le_mul_left 2 hdigit
    _ < 1 <<< k' := hthirty
    _ ≤ 1 <<< k := by
      rw [Nat.one_shiftLeft, Nat.one_shiftLeft]
      exact Nat.pow_le_pow_right (by decide) hshift

/-- One more digit is lost, once the digits make `2⁵³` or more. -/
theorem hexStep_hexIndex_of_le (hn : 2 ^ 53 ≤ n) (hd : d < 16) :
    hexStep (ofIndex false (hexIndex n)) d = ofIndex false (hexIndex (16 * n + d)) := by
  obtain ⟨hleading, hexcess⟩ := leading_step hn hd
  have hlow := le_hexIndex hn
  have hgroup : 0x10000000000000 ≤ hexIndex n := Nat.le_trans (by decide) hlow
  have hsixteen : 16 * rung (hexIndex n) = rung (hexIndex n + 4 * 0x10000000000000) :=
    (rung_add_groups hgroup 4).symm
  have hmore : 2 ^ 53 ≤ 16 * n + d := by omega
  rw [hexStep_ofIndex (hexIndex_le n) (.inr hgroup) (by omega), hsixteen,
    nearestIndex_rung_add (two_mul_digit_lt hlow hd), hexIndex_of_le hmore, hleading, hexcess,
    hexIndex_of_le hn]
  -- It does not matter whether infinity was reached before this digit.
  have hmin : ∀ a b c : Nat, min (min a b + c) b = min (a + c) b := by omega
  have hgroups : ∀ q, (excess n + 1074) * 0x10000000000000 + q + 4 * 0x10000000000000 =
      (excess n + 4 + 1074) * 0x10000000000000 + q := fun q => by ring
  rw [hmin, hgroups]

/-- One more digit is exact, as long as the digits make less than `2⁵³`. -/
theorem hexStep_hexIndex_of_lt (hn : n < 2 ^ 53) (hd : d < 16) :
    hexStep (ofIndex false (hexIndex n)) d = ofIndex false (hexIndex (16 * n + d)) := by
  obtain ⟨i, hi, hrung⟩ := exists_rung_eq_mul_one (Nat.le_of_lt hn)
  have hindex : hexIndex n = i := by
    rw [hexIndex_of_lt (by omega), ← hrung, nearestIndex_rung (Nat.le_of_lt hi)]
  have hgroup : i = 0 ∨ 0x10000000000000 ≤ i := by
    rcases Nat.eq_zero_or_pos n with rfl | hpos
    · exact .inl (rung_injective (by rw [hrung, Nat.zero_mul, rung_zero]))
    · refine .inr (Nat.le_of_not_lt fun hlt => ?_)
      have hone : 0x10000000000000 ≤ one := by decide +kernel
      have hle : one ≤ n * one := Nat.le_mul_of_pos_left one hpos
      rw [rung_of_lt hlt] at hrung
      omega
  have hsum : 16 * (n * one) + d * one = (16 * n + d) * one := by ring
  rw [hindex, hexStep_ofIndex (Nat.le_of_lt hi) hgroup (by omega), hrung, hsum,
    hexIndex_of_lt (by omega)]

/-- **One more digit.** -/
theorem hexStep_hexIndex (n : Nat) (hd : d < 16) :
    hexStep (ofIndex false (hexIndex n)) d = ofIndex false (hexIndex (16 * n + d)) := by
  rcases Nat.lt_or_ge n (2 ^ 53) with hlt | hge
  · exact hexStep_hexIndex_of_lt hlt hd
  · exact hexStep_hexIndex_of_le hge hd

/-! ### Rounding twice -/

/-- The hexadecimal numerals of a number are read amiss: the number is below infinity, its leading
digits are in the middle between two numbers, the lower of which is even, and its other digits are
not all zeros. -/
def Misread (n : Nat) : Prop :=
  n < 2 ^ 1024 ∧ n % 16 ^ trailing n ≠ 0 ∧
    leading n / 2 ^ excess (leading n) % 2 = 0 ∧
    leading n % 2 ^ excess (leading n) = 2 ^ (excess (leading n) - 1)

instance : DecidablePred Misread := fun n =>
  inferInstanceAs (Decidable (n < 2 ^ 1024 ∧ _ ∧ _ ∧ _))

/-- Below `2⁵⁷` all digits are leading ones, so that none is lost. -/
theorem not_misread_of_lt (hn : n < 2 ^ 57) : ¬ Misread n := by
  rintro ⟨-, hrest, -, -⟩
  rw [trailing_of_lt hn, Nat.pow_zero, Nat.mod_one] at hrest
  exact hrest rfl

/-- A number is below infinity when its floor is. -/
theorem lt_two_pow_iff (hn : 2 ^ 53 ≤ n) :
    n < 2 ^ 1024 ↔ (excess n + 1074) * 0x10000000000000 + leading n / 2 ^ excess (leading n) <
      infinityIndex := by
  have h0 : n ≠ 0 := by omega
  obtain ⟨hlow, hhigh⟩ := div_excess_bounds (Nat.le_trans (by decide) (leading_bounds hn).1)
  have hlog : 53 ≤ n.log2 := (Nat.le_log2 h0).2 hn
  rw [← Nat.log2_lt h0]
  generalize leading n / 2 ^ excess (leading n) = q at hlow hhigh ⊢
  unfold excess infinityIndex
  omega

theorem two_pow_excess_leading (hn : 2 ^ 53 ≤ n) :
    2 ^ excess (leading n) = 2 * 2 ^ (excess (leading n) - 1) := by
  rw [← Nat.pow_succ', Nat.succ_eq_add_one, Nat.sub_add_cancel (leading_bounds hn).2.1]

/-- The two ways to round, where there are digits to drop. -/
theorem nearestIndex_of_leading (hn : 2 ^ 53 ≤ n) :
    nearestIndex (n * one) 1 = min ((excess n + 1074) * 0x10000000000000 +
      if leading n % 2 ^ excess (leading n) = 2 ^ (excess (leading n) - 1) ∧ n % 16 ^ trailing n ≠ 0
      then leading n / 2 ^ excess (leading n) + 1
      else halfEven (leading n) (2 ^ excess (leading n))) infinityIndex := by
  obtain ⟨-, -, -, hexcess⟩ := leading_bounds hn
  have hhalf := two_pow_excess_leading hn
  have hpow : 2 ^ excess n = 16 ^ trailing n * (2 * 2 ^ (excess (leading n) - 1)) := by
    rw [hexcess, Nat.pow_add, Nat.pow_mul, ← hhalf, Nat.mul_comm]
  have hsplit : n = 16 ^ trailing n * leading n + n % 16 ^ trailing n := (Nat.div_add_mod n _).symm
  have hrest : n % 16 ^ trailing n < 16 ^ trailing n := Nat.mod_lt _ (Nat.pow_pos (by decide))
  have hround := halfEven_mul_add (p := leading n) hrest (Nat.two_pow_pos (excess (leading n) - 1))
  rw [← hsplit, ← hpow, ← hhalf] at hround
  rw [nearestIndex_mul_one (Nat.le_trans (by decide) hn), hround]

/-- Above a position below infinity, the next one is that of the upper bound, unless it is the even
one already. -/
theorem min_succ_eq_ite (a q b : Nat) :
    min (a + (q + 1)) b =
      if a + q < b ∧ q % 2 = 0 then min (a + (q + q % 2)) b + 1 else min (a + (q + q % 2)) b := by
  split <;> omega

/-- **Where rounding twice matters.**  The decimal numerals of a number that is read amiss are read
as the number after the one that its hexadecimal numerals are read as. -/
theorem nearestIndex_eq_hexIndex (n : Nat) :
    nearestIndex (n * one) 1 = if Misread n then hexIndex n + 1 else hexIndex n := by
  rcases Nat.lt_or_ge n (2 ^ 57) with hlt | hge
  · rw [if_neg (not_misread_of_lt hlt), hexIndex_of_lt hlt]
  · have hn : 2 ^ 53 ≤ n := by omega
    have hfinite := lt_two_pow_iff hn
    rw [nearestIndex_of_leading hn, hexIndex_of_le hn]
    by_cases htie : leading n % 2 ^ excess (leading n) = 2 ^ (excess (leading n) - 1) ∧
        n % 16 ^ trailing n ≠ 0
    · have hmisread : Misread n ↔ n < 2 ^ 1024 ∧ leading n / 2 ^ excess (leading n) % 2 = 0 :=
        ⟨fun h => ⟨h.1, h.2.2.1⟩, fun h => ⟨h.1, htie.2, h.2, htie.1⟩⟩
      have htwice : 2 * (leading n % 2 ^ excess (leading n)) = 2 ^ excess (leading n) := by
        rw [htie.1, two_pow_excess_leading hn]
      simp only [if_pos htie, hmisread, hfinite, halfEven_of_tie htwice]
      exact min_succ_eq_ite _ _ _
    · have hread : ¬ Misread n := fun h => htie ⟨h.2.2.2, h.2.1⟩
      rw [if_neg htie, if_neg hread]

/-! ### Numerals -/

/-- The number that hexadecimal digits denote. -/
def natOfHexDigits (cs : List Char) : Nat := cs.foldl (fun n c => 16 * n + (hexDigit? c).getD 0) 0

/-- Hexadecimal digits of either case, at least one, that denote a natural number. -/
structure SpellsHex (digits : List Char) (n : Nat) : Prop where
  ne_nil : digits ≠ []
  isDigit : ∀ c ∈ digits, (hexDigit? c).isSome = true
  value : natOfHexDigits digits = n

/-- A sign that may stand before a numeral, and whether it is a minus. -/
inductive Sign : List Char → Bool → Prop where
  | none : Sign [] false
  | plus : Sign ['+'] false
  | minus : Sign ['-'] true

theorem hexDigit?_bounds {c : Char} (h : (hexDigit? c).isSome = true) :
    ∃ d, hexDigit? c = some d ∧ d < 16 ∧ isBlank c = false := by
  have hall : hexDigitChars.all (fun c => (hexDigit? c).getD 16 < 16 && !isBlank c) = true := rfl
  have hc := List.all_eq_true.1 hall c (isSome_hexDigit?_iff.1 h)
  obtain ⟨d, hd⟩ := Option.isSome_iff_exists.1 h
  simp only [hd, Option.getD_some, Bool.and_eq_true, decide_eq_true_eq, Bool.not_eq_true'] at hc
  exact ⟨d, hd, hc⟩

/-- Reading digits to the end, after a number whose digits were read before. -/
theorem hexFrom_hexIndex {cs : List Char} (hcs : ∀ c ∈ cs, (hexDigit? c).isSome = true) (n : Nat) :
    hexFrom (ofIndex false (hexIndex n)) cs =
      some (ofIndex false (hexIndex (cs.foldl (fun n c => 16 * n + (hexDigit? c).getD 0) n))) := by
  induction cs generalizing n with
  | nil => rfl
  | cons c cs ih =>
      obtain ⟨d, hd, hlt, -⟩ := hexDigit?_bounds (hcs c List.mem_cons_self)
      simp only [hexFrom, hd, hexStep_hexIndex n hlt, List.foldl_cons, Option.getD_some]
      exact ih (fun c hc => hcs c (List.mem_cons_of_mem _ hc)) _

theorem hex?_digits {mark : Char} {digits : List Char} (hmark : mark = 'x' ∨ mark = 'X')
    (h : SpellsHex digits n) :
    hex? ('0' :: mark :: digits) = some (ofIndex false (hexIndex n)) := by
  obtain ⟨c, cs, rfl⟩ := List.exists_cons_of_ne_nil h.ne_nil
  have hmark' : (mark == 'x' || mark == 'X') = true := by
    rcases hmark with rfl | rfl
    · rfl
    · rfl
  have hzero : Binary64.zero = ofIndex false (hexIndex 0) := by decide
  rw [hex?, if_pos hmark', hzero, hexFrom_hexIndex h.isDigit]
  exact congrArg (fun n => some (ofIndex false (hexIndex n))) h.value

/-- What is read of an unsigned text, with a sign in front. -/
theorem readChars?_sign {sign cs : List Char} {negative : Bool} (hsign : Sign sign negative)
    (hblank : ∀ c ∈ cs, isBlank c = false) (hcs : splitSign cs = (false, cs)) :
    readChars? (sign ++ cs) =
      ((hex? cs).map fun x => if negative then x.neg else x).or (decimal? negative cs) := by
  have hblanks : ∀ c ∈ sign ++ cs, isBlank c = false := by
    intro c hc
    rcases List.mem_append.1 hc with hc | hc
    · cases hsign with
      | none => cases hc
      | plus | minus =>
          rw [List.mem_singleton.1 hc]
          rfl
    · exact hblank c hc
  have htrim : trim (sign ++ cs) = sign ++ cs := by
    have h := @trim_append [] (sign ++ cs) [] nofun hblanks nofun
    rwa [List.nil_append, List.append_nil] at h
  have hsplit : splitSign (sign ++ cs) = (negative, cs) := by
    cases hsign with
    | none => exact hcs
    | plus | minus => rfl
  unfold readChars?
  rw [htrim, hsplit]
  cases hhex : hex? cs with
  | none => simp only [hhex, Option.map_none, Option.none_or]
  | some x => simp only [hhex, Option.map_some, Option.some_or]

/-- Of a hexadecimal numeral, what is read is rounded in two steps. -/
theorem readChars?_hexadecimal {sign digits : List Char} {negative : Bool} {mark : Char}
    (hsign : Sign sign negative) (hmark : mark = 'x' ∨ mark = 'X') (h : SpellsHex digits n) :
    readChars? (sign ++ '0' :: mark :: digits) = some (ofIndex negative (hexIndex n)) := by
  have hblank : ∀ c ∈ '0' :: mark :: digits, isBlank c = false := by
    intro c hc
    rcases List.mem_cons.1 hc with rfl | hc
    · rfl
    rcases List.mem_cons.1 hc with rfl | hc
    · rcases hmark with rfl | rfl
      · rfl
      · rfl
    · obtain ⟨-, -, -, hc⟩ := hexDigit?_bounds (h.isDigit c hc)
      exact hc
  rw [readChars?_sign hsign hblank (splitSign_of_isDigit rfl), hex?_digits hmark h]
  cases negative with
  | false => rfl
  | true => exact congrArg some (neg_ofIndex_false (hexIndex_le n))

/-- Of a decimal numeral, what is read is rounded once. -/
theorem readChars?_decimal {sign digits : List Char} {negative : Bool} (hsign : Sign sign negative)
    (h : Spells digits n) :
    readChars? (sign ++ digits) = some (ofIndex negative (nearestIndex (n * one) 1)) := by
  have hdecimal : ∀ c ∈ digits, isDecimalChar c = true := fun c hc =>
    isDecimalChar_of_isDigit (h.isDigit c hc)
  have hunsigned : splitSign digits = (false, digits) := by
    obtain ⟨c, cs, rfl⟩ := List.exists_cons_of_ne_nil h.ne_nil
    exact splitSign_of_isDigit (h.isDigit c List.mem_cons_self)
  let p : Parts := ⟨digits, [], [], 0, h.ne_nil, h.isDigit, nofun, rfl⟩
  have hchars : p.chars = digits := List.append_nil digits
  have hread := p.decimal?_chars negative
  rw [hchars] at hread
  rw [readChars?_sign hsign (fun c hc => isBlank_of_isDecimalChar (hdecimal c hc)) hunsigned,
    hex?_of_isDecimalChar hdecimal, hread]
  refine congrArg some ?_
  change ofDecimal negative (natOfDigits (digits ++ [])) 0 = _
  rw [List.append_nil, h.value]
  by_cases hn : n = 0
  · have hzero : nearestIndex 0 1 = 0 := by decide
    rw [hn, Nat.zero_mul, hzero, ofDecimal, if_pos rfl]
  · have hratio := ofDecimal_natCast negative hn (k := 0) (by decide)
    rw [Nat.pow_zero, Nat.mul_one] at hratio
    exact hratio

/-- **When hexadecimal and decimal numerals agree.**  Let digits of both kinds denote one natural
number, and let the numerals have equal signs.  The hexadecimal numeral is read as its leading
digits, rounded, with zeros after them, and the decimal one as the nearest number.  They are read as
one number unless the hexadecimal one is misread, and none is below `2⁵⁷`; then the decimal one is
read as the number that follows in magnitude. -/
theorem hexadecimal_eq_decimal_iff {negative : Bool} {sign sign' hexDigits digits : List Char}
    {mark : Char} (hsign : Sign sign negative) (hsign' : Sign sign' negative)
    (hmark : mark = 'x' ∨ mark = 'X') (hhex : SpellsHex hexDigits n) (hdec : Spells digits n) :
    read? (String.ofList (sign ++ '0' :: mark :: hexDigits)) =
      some (ofIndex negative (hexIndex n)) ∧
    read? (String.ofList (sign' ++ digits)) = some (ofRatio negative (n * one) 1) ∧
    (read? (String.ofList (sign ++ '0' :: mark :: hexDigits)) =
      read? (String.ofList (sign' ++ digits)) ↔ ¬ Misread n) ∧
    (Misread n →
      read? (String.ofList (sign' ++ digits)) = some (ofIndex negative (hexIndex n + 1))) ∧
    (n < 2 ^ 57 → ¬ Misread n) := by
  have hleft : read? (String.ofList (sign ++ '0' :: mark :: hexDigits)) =
      some (ofIndex negative (hexIndex n)) := by
    rw [read?, String.toList_ofList, readChars?_hexadecimal hsign hmark hhex]
  have hright : read? (String.ofList (sign' ++ digits)) =
      some (ofIndex negative (nearestIndex (n * one) 1)) := by
    rw [read?, String.toList_ofList, readChars?_decimal hsign' hdec]
  have hround := nearestIndex_eq_hexIndex n
  refine ⟨hleft, hright, ?_, fun h => ?_, not_misread_of_lt⟩
  · rw [hleft, hright]
    constructor
    · intro heq hmisread
      rw [if_pos hmisread] at hround
      have hindex := congrArg index (Option.some.inj heq)
      rw [index_ofIndex negative (hexIndex_le n), index_ofIndex negative (nearestIndex_le _ _),
        hround] at hindex
      omega
    · intro hread
      rw [hround, if_neg hread]
  · rw [hright, hround, if_pos h]

/-- Of `2⁵³ + 1`, in the middle between two numbers, all digits are leading ones, and it is rounded
to the even one, in both notations. -/
theorem hexadecimal_eq_decimal_middle :
    SpellsHex "0020000000000001".toList (2 ^ 53 + 1) ∧
    Spells "9007199254740993".toList (2 ^ 53 + 1) ∧
    read? "-0X0020000000000001" = read? "-9007199254740993" := by
  have hhex : SpellsHex "0020000000000001".toList (2 ^ 53 + 1) :=
    ⟨by decide, List.all_eq_true.1 (by decide +kernel), by decide +kernel⟩
  have hdec : Spells "9007199254740993".toList (2 ^ 53 + 1) :=
    ⟨by decide, List.all_eq_true.1 (by decide +kernel), by decide +kernel⟩
  obtain ⟨-, -, hagree, -, hsmall⟩ := hexadecimal_eq_decimal_iff .minus .minus (.inr rfl) hhex hdec
  exact ⟨hhex, hdec, hagree.2 (hsmall (by decide))⟩

/-- Of `2⁵⁷ + 17`, the last digit is lost, and the others are in the middle between two numbers: the
notations do not agree. -/
theorem hexadecimal_ne_decimal :
    SpellsHex "200000000000011".toList (2 ^ 57 + 17) ∧
    Spells "144115188075855889".toList (2 ^ 57 + 17) ∧
    read? "0x200000000000011" = some (.ofNat (2 ^ 57)) ∧
    read? "144115188075855889" = some (.ofNat (2 ^ 57 + 32)) ∧
    read? "0x200000000000011" ≠ read? "144115188075855889" :=
  ⟨⟨by decide, List.all_eq_true.1 (by decide +kernel), by decide +kernel⟩,
    ⟨by decide, List.all_eq_true.1 (by decide +kernel), by decide +kernel⟩, by decide +kernel,
    by decide +kernel, by decide +kernel⟩

end Numeral

end LuaKernel
