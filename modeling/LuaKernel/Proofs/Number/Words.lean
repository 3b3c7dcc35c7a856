import LuaKernel.Library.Base
import LuaKernel.Proofs.Strings.Ranges

/-!
# Numbers as words

The integer view of a number is exact (`integer_view_exact`).  A number is seen as an integer if and
only if it is that integer, and the integer is a word of sixty-four bits with a sign; and the number
of the integer is the number again (`Binary64.equal_ofInt_of_toInteger?`).

The greatest word is no number.  As a number it is `2⁶³`, so whether a number is below the greatest
word can be told by comparing numbers, although that word is rounded up
(`Binary64.castInteger?_eq`).  The last number below `2⁶³` is `2⁶³ - 1024`
(`Binary64.toInteger?_le`).  So an integer that comes from a number, or from a string that is read
as one, is far enough from the greatest word for what the library computes from it (`StaysInWords`).
-/

namespace LuaKernel

namespace Binary64

/-! ### The number of an integer -/

/-- A number that is an integer stands on the rung of this integer. -/
theorem rung_index_of_value_eq {x : Binary64} {n : Int} (h : x.value = n * one) :
    rung x.index = n.natAbs * one := by
  change x.magnitude = _
  rw [magnitude_eq_natAbs, h, Int.natAbs_mul, Int.natAbs_natCast]

theorem isNaN_of_isFinite {x : Binary64} (h : x.isFinite = true) : x.isNaN = false := by
  simp only [isFinite, isNaN, decide_eq_true_eq, decide_eq_false_iff_not] at h ⊢
  omega

/-- If a number is an integer, the number of the integer is so too, and it is the number again, but
for the sign of a zero. -/
theorem ofInt_of_value_eq {x : Binary64} {n : Int} (hfinite : x.isFinite = true)
    (hvalue : x.value = n * one) :
    (ofInt n).value = n * one ∧ (ofInt n).isFinite = true ∧ (ofInt n).equal x = true := by
  obtain ⟨hback, hback'⟩ :=
    value_ofInt_of_rung (of_decide_eq_true hfinite) (rung_index_of_value_eq hvalue)
  refine ⟨hback, hback', ?_⟩
  simp only [equal, not_isNaN_ofInt, isNaN_of_isFinite hfinite, hback, hvalue, Bool.not_false,
    Bool.true_and, decide_true]

/-- The number of the integer that a number is seen as is the number again. -/
theorem equal_ofInt_of_toInteger? {x : Binary64} {n : Int} (h : x.toInteger? = some n) :
    (ofInt n).equal x = true := by
  obtain ⟨hfinite, hvalue, -⟩ := toInteger?_eq_some_iff.1 h
  exact (ofInt_of_value_eq hfinite hvalue).2.2

/-- An integer that a number is seen as is at most the last number below `2⁶³`. -/
theorem toInteger?_le {x : Binary64} {n : Int} (h : x.toInteger? = some n) : n ≤ 2 ^ 63 - 1024 := by
  obtain ⟨-, hvalue, hfits⟩ := toInteger?_eq_some_iff.1 h
  rw [Library.fitsWord_iff] at hfits
  by_contra hgt
  -- Otherwise the number would stand between two rungs that follow each other.
  have hlow : rung 0x43DFFFFFFFFFFFFF = (2 ^ 63 - 1024) * one := by decide +kernel
  have hhigh : rung (0x43DFFFFFFFFFFFFF + 1) = 2 ^ 63 * one := by decide +kernel
  have hafter : 0x43DFFFFFFFFFFFFF < x.index := by
    refine lt_of_rung_lt_rung ?_
    rw [hlow, rung_index_of_value_eq hvalue]
    exact Nat.mul_lt_mul_of_pos_right (by omega) one_pos
  have hbefore : x.index < 0x43DFFFFFFFFFFFFF + 1 := by
    refine lt_of_rung_lt_rung ?_
    rw [hhigh, rung_index_of_value_eq hvalue]
    exact Nat.mul_lt_mul_of_pos_right (by omega) one_pos
  omega

/-! ### Comparing with words -/

/-- The least word, as a number. -/
def leastWord : Binary64 := ofInt (-0x8000000000000000)

/-- The greatest word, as a number; it is rounded up to `2⁶³`. -/
def greatestWord : Binary64 := ofInt 0x7FFFFFFFFFFFFFFF

/-- The word nearest to an integer. -/
def saturate (n : Int) : Int := max (-0x8000000000000000) (min n 0x7FFFFFFFFFFFFFFF)

/-- The integer that a number is, found out by comparing it with the least and the greatest word as
numbers, and by taking the nearest word in the end. -/
def castInteger? (x : Binary64) : Option Int :=
  if x.isFinite && x.magnitude % one == 0 && (leastWord.lessEqual x && x.less greatestWord) then
    some (saturate (x.value / one))
  else none

theorem value_leastWord :
    leastWord.value = -0x8000000000000000 * one ∧ leastWord.isNaN = false := by
  decide +kernel

/-- The greatest word is rounded up. -/
theorem value_greatestWord :
    greatestWord.value = 0x8000000000000000 * one ∧ greatestWord.isNaN = false := by
  decide +kernel

/-- A number that is an integer lies between the words, as numbers, if and only if the integer is a
word. -/
theorem between_words_iff {x : Binary64} {n : Int} (hfinite : x.isFinite = true)
    (hvalue : x.value = n * one) : (leastWord.lessEqual x && x.less greatestWord) = fitsWord n := by
  obtain ⟨hleast, hleast'⟩ := value_leastWord
  obtain ⟨hgreatest, hgreatest'⟩ := value_greatestWord
  have hone : (0 : Int) < one := by exact_mod_cast one_pos
  simp only [lessEqual, less, fitsWord, hleast', hgreatest', isNaN_of_isFinite hfinite, hvalue,
    hleast, hgreatest, Bool.not_false, Bool.true_and]
  rw [decide_eq_decide.2 (Int.mul_le_mul_iff_of_pos_right hone),
    decide_eq_decide.2 (Int.mul_lt_mul_right hone)]

/-- Comparing a number with words as numbers comes to the same as comparing its integer
with words. -/
theorem castInteger?_eq (x : Binary64) : x.castInteger? = x.toInteger? := by
  unfold castInteger? toInteger?
  by_cases hint : x.isFinite = true ∧ x.magnitude % one = 0
  · obtain ⟨hfinite, hmod⟩ := hint
    have hdvd : (one : Int) ∣ x.value := by
      rwa [← Int.natAbs_dvd_natAbs, Int.natAbs_natCast, ← magnitude_eq_natAbs,
        Nat.dvd_iff_mod_eq_zero]
    rw [between_words_iff hfinite (Int.ediv_mul_cancel hdvd).symm]
    refine ite_congr rfl (fun hword => ?_) fun _ => rfl
    rw [Bool.and_eq_true, Library.fitsWord_iff] at hword
    rw [saturate, Int.min_eq_left (by omega), Int.max_eq_right hword.2.1]
  · have hno : (x.isFinite && x.magnitude % one == 0) = false := by
      rwa [Bool.eq_false_iff, ne_eq, Bool.and_eq_true, beq_iff_eq]
    simp only [hno, Bool.false_and, Bool.false_eq_true, if_false]

end Binary64

/-! ### Integers from arguments -/

/-- Where a selection starts, if all that is computed on the way fits into words. -/
def Library.selectStart? (n : Int) (count : Nat) : Option Int := do
  let count ← word? count
  if n < 0 then return max (← word? (n + count)) 0
  else if n = 0 then return 0
  else word? (n - 1)

open Library in
/-- What the library computes from an integer argument fits into words. -/
structure StaysInWords (n : Int) : Prop where
  /-- The position after it, to which an iteration goes on. -/
  next : word? (n + 1) = some (n + 1)
  /-- The number of positions before it, for a selection or a range of bytes. -/
  before : 0 < n → word? (n - 1) = some (n - 1)
  /-- Where a selection of arguments starts. -/
  selection : ∀ count : Nat, Binary64.fitsWord count = true →
    selectStart? n count = some (selectStart n count : Int)
  /-- Where a range of bytes starts; the number of bytes has a successor among the words. -/
  range : ∀ size : Nat, Binary64.fitsWord (size + 1) = true →
    startOffset? n size = some (startOffset n size : Int)

namespace Library

theorem selectStart?_eq {n : Int} {count : Nat} (hn : Binary64.fitsWord n = true)
    (hcount : Binary64.fitsWord count = true) :
    selectStart? n count = some (selectStart n count : Int) := by
  rw [fitsWord_iff] at hn hcount
  unfold selectStart? selectStart
  rw [word?_eq_some (by omega) (by omega)]
  simp only [Option.bind_eq_bind, Option.bind_some]
  split
  · rw [word?_eq_some (by omega) (by omega)]
    simp
  · split
    · simp
      omega
    · rw [word?_eq_some (by omega) (by omega)]
      simp
      omega

end Library

open Library in
/-- A word that has a successor is safe. -/
theorem StaysInWords.of_lt {n : Int} (hlow : -2 ^ 63 ≤ n) (hhigh : n < 2 ^ 63 - 1) :
    StaysInWords n where
  next := word?_eq_some (by omega) (by omega)
  before _ := word?_eq_some (by omega) (by omega)
  selection _ := selectStart?_eq (fitsWord_iff.2 (by omega))
  range _ := startOffset?_eq (fitsWord_iff.2 (by omega))

/-- An integer that is wanted comes from a number. -/
theorem Value.exists_of_checkInteger {v : Value} {n : Int} (h : v.checkInteger = .ok n) :
    ∃ x, v.toNumber? = some x ∧ x.toInteger? = some n := by
  unfold checkInteger checkNumber at h
  cases hx : v.toNumber? with
  | none => rw [hx] at h; cases h
  | some x =>
      rw [hx] at h
      cases hn : x.toInteger? with
      | none => simp only [hn] at h; cases h
      | some k =>
          simp only [hn] at h
          cases h
          exact ⟨x, rfl, hn⟩

/-- So it is a word, and not too close to the greatest one. -/
theorem Value.bounds_of_checkInteger {v : Value} {n : Int} (h : v.checkInteger = .ok n) :
    -2 ^ 63 ≤ n ∧ n ≤ 2 ^ 63 - 1024 := by
  obtain ⟨x, -, hn⟩ := exists_of_checkInteger h
  have hfits := (Binary64.toInteger?_eq_some_iff.1 hn).2.2
  rw [Library.fitsWord_iff] at hfits
  exact ⟨by omega, Binary64.toInteger?_le hn⟩

/-- An integer argument stays in words, and so does one, which stands for an argument that is
missing. -/
theorem StaysInWords.of_argument {v : Value} {n : Int}
    (h : v.checkInteger = .ok n ∨ v.optInteger 1 = .ok n) : StaysInWords n := by
  have hchecked : v.checkInteger = .ok n → StaysInWords n := fun h => by
    obtain ⟨hlow, hhigh⟩ := Value.bounds_of_checkInteger h
    exact .of_lt hlow (by omega)
  rcases h with h | h
  · exact hchecked h
  · unfold Value.optInteger at h
    split at h
    · cases h
      exact .of_lt (by omega) (by omega)
    · exact hchecked h

/-- **The integer view of numbers is exact.**  A number is seen as an integer if and only if it is
this integer, and the integer is a word of sixty-four bits.  Whether it is a word can be told by
comparing the number with the least and the greatest word, although the latter is rounded.  The
number of the integer is the number again, and the integer is at most `2⁶³ - 1024`.  So is every
integer that an argument is checked to be, be it a number or a string; what the library computes
from it fits into words.  The integers up to `2⁵³` in magnitude are seen as themselves when they are
made into values. -/
theorem integer_view_exact :
    (∀ (x : Binary64) (n : Int), x.toInteger? = some n ↔
      x.isFinite = true ∧ x.value = n * Binary64.one ∧ -2 ^ 63 ≤ n ∧ n < 2 ^ 63) ∧
    (∀ x : Binary64, x.castInteger? = x.toInteger?) ∧
    (∀ (x : Binary64) (n : Int), x.toInteger? = some n →
      (Value.ofInt n).rawEqual (.number x) = true ∧ n ≤ 2 ^ 63 - 1024) ∧
    (∀ (v : Value) (n : Int), v.checkInteger = .ok n → -2 ^ 63 ≤ n ∧ n ≤ 2 ^ 63 - 1024) ∧
    (∀ (v : Value) (n : Int), v.checkInteger = .ok n ∨ v.optInteger 1 = .ok n → StaysInWords n) ∧
    ∀ n : Int, n.natAbs ≤ 2 ^ 53 → (Value.ofInt n).asInteger? = some n := by
  refine ⟨fun x n => ?_, Binary64.castInteger?_eq,
    fun x n h => ⟨Binary64.equal_ofInt_of_toInteger? h, Binary64.toInteger?_le h⟩,
    fun v n => Value.bounds_of_checkInteger, fun v n => StaysInWords.of_argument,
    fun n => Binary64.toInteger?_ofInt⟩
  rw [Binary64.toInteger?_eq_some_iff, Library.fitsWord_iff]
  norm_num

/-- The last number below `2⁶³`, and the least word, as a hexadecimal numeral. -/
theorem extreme_integers_viewed :
    (Binary64.ofIndex false 0x43DFFFFFFFFFFFFF).toInteger? = some (2 ^ 63 - 1024) ∧
    (Value.ofInt (2 ^ 63 - 1024)).rawEqual (.number (.ofIndex false 0x43DFFFFFFFFFFFFF)) = true ∧
    (Value.string " -0x8000000000000000").checkInteger = .ok (-2 ^ 63) ∧
    Library.word? (-2 ^ 63 + 1) = some (-2 ^ 63 + 1) ∧
    (Value.ofInt (2 ^ 53)).asInteger? = some (2 ^ 53) := by
  obtain ⟨-, -, hback, -, hwords, hsmall⟩ := integer_view_exact
  have hlast : (Binary64.ofIndex false 0x43DFFFFFFFFFFFFF).toInteger? = some (2 ^ 63 - 1024) := by
    decide +kernel
  have hread : Numeral.read? " -0x8000000000000000" = some (.ofIndex true 0x43E0000000000000) := by
    decide +kernel
  have hview : (Binary64.ofIndex true 0x43E0000000000000).toInteger? = some (-2 ^ 63) := by
    decide +kernel
  have hleast : (Value.string " -0x8000000000000000").checkInteger = .ok (-2 ^ 63) := by
    simp only [Value.checkInteger, Value.checkNumber, Value.toNumber?, hread, hview]
  exact ⟨hlast, (hback _ _ hlast).1, hleast, (hwords _ _ (.inl hleast)).next, hsmall _ (by decide)⟩

end LuaKernel
