import LuaKernel.Library.Base
import LuaKernel.Proofs.Number.Written

/-!
# The text of a number is read back

Reading the text of a finite number gives this number again, bit for bit, but for the negative zero,
which is written like the other one (`number_text_roundTrip`).  So two finite numbers have the same
text only if they are equal, and converting a number to a string and back does not change it.  The
texts of the infinities and of the NaNs are no numerals.

The digits of a text are found by trying decimals until one reads back, and the search ends with a
decimal that is the number exactly (`Decimal.readsAs_shortest`).  What is left is that the text of a
decimal is read as this decimal (`Layout.readChars?_decimal`).
-/

namespace LuaKernel

namespace Binary64

/-! ### Rounding quotients -/

/-- Rounding does not depend on how a quotient is written. -/
theorem nearestIndex_mul {c : Nat} (hc : 0 < c) (num : Nat) :
    nearestIndex (num * c) c = nearestIndex num 1 := by
  have hlt : ∀ a b : Nat, a * c < b * c ↔ a < b := fun a b =>
    ⟨Nat.lt_of_mul_lt_mul_right, fun h => Nat.mul_lt_mul_of_pos_right h hc⟩
  have hleft : ∀ s, 2 * (num * c) < c * s ↔ 2 * num < 1 * s := by
    intro s
    rw [← Nat.mul_assoc, Nat.mul_comm c, hlt, Nat.one_mul]
  have hright : ∀ s, c * s < 2 * (num * c) ↔ 1 * s < 2 * num := by
    intro s
    rw [← Nat.mul_assoc, Nat.mul_comm c, hlt, Nat.one_mul]
  simp only [nearestIndex, Nat.mul_div_cancel num hc, Nat.div_one, hleft, hright]

theorem nearestIndex_le (num den : Nat) : nearestIndex num den ≤ infinityIndex :=
  Nat.min_le_right _ _

/-- The position of a rounded decimal does not depend on the sign. -/
theorem ofDecimal_eq_ofIndex (negative : Bool) (digits : Nat) (exponent : Int) :
    ofDecimal negative digits exponent =
      ofIndex negative (ofDecimal false digits exponent).index := by
  have hofIndex : ∀ {i}, i ≤ infinityIndex →
      ofIndex negative i = ofIndex negative (ofIndex false i).index := fun h => by
    rw [index_ofIndex false h]
  unfold ofDecimal
  split
  · exact hofIndex (Nat.zero_le _)
  split
  · exact hofIndex (Nat.le_refl _)
  split
  · exact hofIndex (Nat.zero_le _)
  split
  · exact hofIndex (nearestIndex_le _ _)
  · exact hofIndex (nearestIndex_le _ _)

end Binary64

/-! ### The shortest decimal -/

namespace Decimal

open Binary64

theorem toBinary64_of_readsAs {d : Decimal} {i : Nat} (h : d.readsAs i = true) (negative : Bool) :
    d.toBinary64 negative = ofIndex negative i := by
  have hi : (d.toBinary64 false).index = i := beq_iff_eq.1 h
  rw [toBinary64, ofDecimal_eq_ofIndex]
  exact congrArg (ofIndex negative) hi

/-- What is found on a grid reads back. -/
theorem readsAs_of_onGrid? {i : Nat} {exponent : Int} {d : Decimal}
    (h : onGrid? i exponent = some d) : d.readsAs i = true := by
  unfold onGrid? at h
  dsimp only at h
  split at h
  · next hlow hhigh =>
      obtain rfl := Option.some.inj h
      split
      · exact hlow
      · exact hhigh
  · next hlow _ => exact Option.some.inj h ▸ hlow
  · next _ hhigh => exact Option.some.inj h ▸ hhigh
  · cases h

/-- A magnitude in units of `2⁻ⁿ` is the same number of multiples of `5ⁿ · 10⁻ⁿ`. -/
theorem nearestIndex_exact {i : Nat} (hi : i ≤ infinityIndex) (n : Nat) :
    nearestIndex (rung i * 5 ^ n * 2 ^ n) (10 ^ n) = i := by
  have hten : 5 ^ n * 2 ^ n = 10 ^ n := (Nat.mul_pow 5 2 n).symm
  rw [Nat.mul_assoc, hten, nearestIndex_mul (Nat.pow_pos (by decide)), nearestIndex_rung hi]

/-- Digits as many as these are not taken for zero. -/
theorem ofDecimal_of_pow_le {digits n : Nat} (hn : 0 < n) (h : 2 ^ n ≤ digits) :
    ofDecimal false digits (-n) = ofRatio false (digits * one) (10 ^ n) := by
  have hne : digits ≠ 0 := Nat.ne_of_gt (Nat.lt_of_lt_of_le (Nat.two_pow_pos n) h)
  have hlog : n ≤ digits.log2 := (Nat.le_log2 hne).2 h
  unfold ofDecimal
  rw [if_neg hne, if_neg (by omega), if_neg (by omega), if_neg (by omega), Int.neg_neg,
    Int.toNat_natCast]
  rfl

/-- The exact decimal of a positive number reads back.  That the least magnitude is `2⁻ⁿ` is all
that is used of `n`: nothing is to compute so large a power. -/
theorem readsAs_of_one_eq {i n : Nat} {e : Int} (h0 : 0 < i) (hi : i ≤ infinityIndex) (hn : 0 < n)
    (he : e = -n) (hone : one = 1 <<< n) : readsAs ⟨rung i * Nat.pow 5 n, e⟩ i = true := by
  have hrung : 0 < rung i := rung_zero ▸ rung_lt_rung h0
  have hpow : 2 ^ n ≤ rung i * 5 ^ n :=
    Nat.le_trans (Nat.pow_le_pow_left (by decide) n) (Nat.le_mul_of_pos_left _ hrung)
  rw [readsAs, toBinary64, he, Nat.pow_eq, ofDecimal_of_pow_le hn hpow, ofRatio, hone,
    Nat.one_shiftLeft, nearestIndex_exact hi, index_ofIndex false hi, beq_self_eq_true]

theorem readsAs_exact {i : Nat} (h0 : 0 < i) (hi : i ≤ infinityIndex) :
    (exact i).readsAs i = true := by
  unfold exact
  apply readsAs_of_one_eq h0 hi
  · decide
  · rfl
  · rw [one]

theorem readsAs_search {i : Nat} (h0 : 0 < i) (hi : i ≤ infinityIndex) (steps : Nat)
    (exponent : Int) : (search i steps exponent).readsAs i = true := by
  induction steps generalizing exponent with
  | zero => exact readsAs_exact h0 hi
  | succ n ih =>
      unfold search
      cases hgrid : onGrid? i exponent with
      | none => exact ih (exponent - 1)
      | some d => exact readsAs_of_onGrid? hgrid

/-- The shortest decimal of a positive number reads back. -/
theorem readsAs_shortest {i : Nat} (h0 : 0 < i) (hi : i ≤ infinityIndex) :
    (shortest i).readsAs i = true :=
  readsAs_search h0 hi _ _

end Decimal

/-! ### The text of a number -/

namespace Binary64

variable {x y : Binary64}

/-- The negative zero. -/
def negativeZero : Binary64 := ofIndex true 0

theorem eq_ofIndex (h : x.index ≤ infinityIndex) : x = ofIndex x.isNegative x.index :=
  eq_of_index_eq (index_ofIndex _ h).symm (isNegative_ofIndex _ h).symm

theorem not_isNaN_of_isFinite (h : x.isFinite = true) : x.isNaN = false := by
  simp only [isFinite, isNaN, decide_eq_true_eq, decide_eq_false_iff_not] at h ⊢
  omega

theorem chars_of_isZero (h : x.isZero = true) : x.chars = ['0'] := by
  have hindex : x.index = 0 := beq_iff_eq.1 h
  have hnan : x.isNaN = false := by simp [isNaN, hindex]
  simp only [chars, hnan, h, Bool.false_eq_true, if_false, if_true]

/-- A finite number other than zero is written with its shortest digits. -/
theorem chars_of_isFinite (h : x.isFinite = true) (h0 : x.isZero = false) :
    x.chars = Numeral.signed x.isNegative (Layout.standard.decimal (Decimal.shortest x.index)) := by
  have hinf : x.isInfinite = false := by
    simp only [isFinite, isInfinite, decide_eq_true_eq, beq_eq_false_iff_ne] at h ⊢
    omega
  simp only [chars, not_isNaN_of_isFinite h, h0, hinf, Bool.false_eq_true, if_false]
  rfl

/-- The text of a finite number is read as this number, but for the negative zero. -/
theorem read?_text (h : x.isFinite = true) :
    Numeral.read? x.text = some (if x = negativeZero then zero else x) := by
  have hle : x.index ≤ infinityIndex := Nat.le_of_lt (of_decide_eq_true h)
  rw [Numeral.read?, text, String.toList_ofList]
  cases h0 : x.isZero with
  | true =>
      have hzero : (if x = negativeZero then zero else x) = zero := by
        split
        · rfl
        · next hne =>
            have hx := eq_ofIndex hle
            rw [beq_iff_eq.1 h0] at hx
            cases hs : x.isNegative with
            | true => rw [hs] at hx; exact absurd hx hne
            | false => rw [hs] at hx; exact hx
      rw [chars_of_isZero h0, hzero]
      decide
  | false =>
      have hne : x ≠ negativeZero := by
        rintro rfl
        exact Bool.noConfusion h0
      have hpos : 0 < x.index := Nat.pos_of_ne_zero (beq_eq_false_iff_ne.1 h0)
      rw [chars_of_isFinite h h0, Layout.readChars?_decimal,
        Decimal.toBinary64_of_readsAs (Decimal.readsAs_shortest hpos hle), ← eq_ofIndex hle,
        if_neg hne]

/-- The text of an infinity or of a NaN is no numeral. -/
theorem read?_text_of_not_isFinite (h : x.isFinite = false) : Numeral.read? x.text = none := by
  have hle : infinityIndex ≤ x.index := Nat.le_of_not_lt (of_decide_eq_false h)
  have h0 : x.isZero = false :=
    beq_eq_false_iff_ne.2 (Nat.ne_of_gt (Nat.lt_of_lt_of_le (by decide) hle))
  rw [Numeral.read?, text, String.toList_ofList]
  unfold chars
  split
  · decide
  · next hnan =>
      have hinf : x.isInfinite = true := by
        simp only [isNaN, decide_eq_true_eq] at hnan
        exact beq_iff_eq.2 (by omega)
      simp only [h0, hinf, Bool.false_eq_true, if_false, if_true]
      cases x.isNegative with
      | true => decide
      | false => decide

theorem equal_iff_value_eq (hx : x.isFinite = true) (hy : y.isFinite = true) :
    x.equal y = true ↔ x.value = y.value := by
  simp only [equal, not_isNaN_of_isFinite hx, not_isNaN_of_isFinite hy, Bool.not_false,
    Bool.true_and, decide_eq_true_eq]

/-- What is read from the text of a number has its value. -/
theorem value_read (x : Binary64) : (if x = negativeZero then zero else x).value = x.value := by
  split
  · next hx => rw [hx]; decide
  · rfl

/-- What is read from the text of a finite number is equal to it. -/
theorem equal_read (h : x.isFinite = true) :
    (if x = negativeZero then zero else x).equal x = true := by
  have hfinite : (if x = negativeZero then zero else x).isFinite = true := by
    split
    · decide
    · exact h
  rw [equal_iff_value_eq hfinite h, value_read]

/-- Finite numbers have one text just when they are equal. -/
theorem text_eq_iff (hx : x.isFinite = true) (hy : y.isFinite = true) :
    x.text = y.text ↔ x.equal y = true := by
  rw [equal_iff_value_eq hx hy]
  constructor
  · intro htext
    have hread : some (if x = negativeZero then zero else x) =
        some (if y = negativeZero then zero else y) := by
      rw [← read?_text hx, ← read?_text hy, htext]
    rw [← value_read x, ← value_read y, Option.some.inj hread]
  · intro hvalue
    by_cases h0 : x.value = 0
    · have hx0 := (isZero_iff_value_eq_zero x).2 h0
      have hy0 := (isZero_iff_value_eq_zero y).2 (hvalue.symm.trans h0)
      rw [text, text, chars_of_isZero hx0, chars_of_isZero hy0]
    · rw [eq_of_value_eq hvalue h0]

end Binary64

/-- A program's `tonumber(tostring(x)) == x`. -/
def Library.comparesEqualAsText (E : Engine) (x : Binary64) : Action Bool := do
  let s ← tostring E [.number x]
  let n ← tonumber s.toList
  E.equal n.first (.number x)

/-- Comparing a number with what is read from its text is comparing it with a number. -/
theorem Library.comparesEqualAsText_apply {E : Engine} {x y : Binary64} (m : Machine)
    (hread : Numeral.read? x.text = some y) (hequal : y.equal x = true) :
    comparesEqualAsText E x m = (.ok true, m) := by
  have hn : tonumber [.string x.text] m = (.ok (.single (.number y)), m) := by
    simp only [tonumber, Value.toNumber?, hread]
    rfl
  have hcompare : E.equal (.number y) (.number x) m = (.ok true, m) := by
    rw [Engine.equal, if_pos (show (Value.number y).rawEqual (.number x) = true from hequal)]
    rfl
  exact (Action.bind_of_ok (fun n : Ret => E.equal n.first (.number x)) hn).trans hcompare

/-- **The text of a number is read back.**  From the text of a finite number the same number is
read, bit for bit, and only from that of the negative zero it is the other zero.  Either way it is a
number that is raw-equal to the first, and a program that converts to a string and back finds it
equal.  Finite numbers have the same text just when they are raw-equal.  The texts of the infinities
and the NaNs are no numerals. -/
theorem number_text_roundTrip :
    (∀ x : Binary64, x.isFinite = true →
      ∃ y, Numeral.read? x.text = some y ∧ (y = if x = .negativeZero then .zero else x) ∧
        (Value.number y).rawEqual (.number x) = true ∧
        ∀ (E : Engine) m, Library.comparesEqualAsText E x m = (.ok true, m)) ∧
    (∀ x y : Binary64, x.isFinite = true → y.isFinite = true →
      (x.text = y.text ↔ (Value.number x).rawEqual (.number y) = true)) ∧
    ∀ x : Binary64, x.isFinite = false → Numeral.read? x.text = none := by
  refine ⟨fun x hx => ?_, fun x y hx hy => Binary64.text_eq_iff hx hy, fun x hx =>
    Binary64.read?_text_of_not_isFinite hx⟩
  have hread := Binary64.read?_text hx
  have hequal := Binary64.equal_read hx
  exact ⟨_, hread, rfl, hequal, fun E m => Library.comparesEqualAsText_apply m hread hequal⟩

/-- The least finite number, in front of the negative infinity. -/
def Binary64.lowest : Binary64 := ofIndex true 0x7FEFFFFFFFFFFFFF

theorem extreme_numbers_roundTrip :
    Binary64.lowest.isFinite = true ∧
    (∃ y, Numeral.read? Binary64.lowest.text = some y ∧ y = Binary64.lowest) ∧
    Binary64.negativeZero.isFinite = true ∧
    (∃ y, Numeral.read? Binary64.negativeZero.text = some y ∧ y = Binary64.zero) ∧
    (Binary64.infinity true).isFinite = false ∧
    Numeral.read? (Binary64.infinity true).text = none := by
  obtain ⟨hfinite, -, hnone⟩ := number_text_roundTrip
  obtain ⟨y, hy, hyeq, -⟩ := hfinite .lowest (by decide)
  obtain ⟨z, hz, hzeq, -⟩ := hfinite .negativeZero (by decide)
  exact ⟨by decide, ⟨y, hy, hyeq⟩, by decide, ⟨z, hz, hzeq⟩, by decide, hnone _ (by decide)⟩

end LuaKernel
