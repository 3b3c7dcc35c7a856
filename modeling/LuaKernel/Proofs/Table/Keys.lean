import LuaKernel.Proofs.Number.Integers
import LuaKernel.Table.Key

/-!
# Keys and raw equality

Two values are one key when they are raw-equal, and all values but nil and the NaNs are keys
(`key?_eq_key?_iff`).  So a table whose entries are found by keys cannot tell raw-equal values
apart.

The slot of the array part that a value names depends on its key alone (`slot?_eq_of_key?`), and no
two keys name one slot (`Key.eq_of_slot?_eq`).  Up to slot `2⁵³ - 1`, the key of the slot is the one
that counting gives (`Key.slot?_ofSlot`): beyond it, rounding lets two counts fall on one key, and
no key names slot `2⁵³` (`Key.slot?_ne_limit`).
-/

namespace LuaKernel

/-- Whether a value can be a key: all but nil and the NaNs can. -/
def Value.isKey : Value → Bool
  | .nil => false
  | .number x => !x.isNaN
  | _ => true

namespace Value

theorem isSome_key? (v : Value) : v.key?.isSome = v.isKey := by
  cases v with
  | number x => cases h : x.isNaN <;> simp [key?, isKey, h]
  | nil | boolean _ | string _ | table _ | function _ => rfl

theorem isKey_iff {v : Value} : v.isKey = true ↔ ∃ k, v.key? = some k := by
  rw [← isSome_key?, Option.isSome_iff_exists]

theorem key?_eq_none_iff {v : Value} : v.key? = none ↔ v.isKey = false := by
  rw [← isSome_key?, Option.isSome_eq_false_iff, Option.isNone_iff_eq_none]

theorem key?_eq_none_or_some (v : Value) :
    (v.key? = none ∧ v.isKey = false) ∨ ∃ k, v.key? = some k ∧ v.isKey = true := by
  cases h : v.key? with
  | none => exact .inl ⟨rfl, key?_eq_none_iff.1 h⟩
  | some k => exact .inr ⟨k, rfl, isKey_iff.2 ⟨k, h⟩⟩

end Value

/-! ### One key, one value -/

/-- The key of a number is its value. -/
theorem Key.ofNumber_eq_iff {x y : Binary64} :
    Key.ofNumber x = Key.ofNumber y ↔ x.value = y.value := by
  have hz : Binary64.zero.value = 0 := by decide
  unfold Key.ofNumber
  constructor
  · intro h
    -- A zero of either sign has the key of the positive zero, any other number its own.
    have h' := Key.number.inj h
    by_cases hx : x.isZero = true <;> by_cases hy : y.isZero = true <;>
      simp only [hx, hy, if_true, if_false, Bool.false_eq_true] at h'
    · rw [(Binary64.isZero_iff_value_eq_zero x).1 hx, (Binary64.isZero_iff_value_eq_zero y).1 hy]
    · rw [(Binary64.isZero_iff_value_eq_zero x).1 hx, ← h', hz]
    · rw [h', hz, (Binary64.isZero_iff_value_eq_zero y).1 hy]
    · rw [h']
  · intro h
    by_cases hx : x.value = 0
    · rw [if_pos ((Binary64.isZero_iff_value_eq_zero x).2 hx),
        if_pos ((Binary64.isZero_iff_value_eq_zero y).2 (h ▸ hx))]
    · rw [Binary64.eq_of_value_eq h hx]

/-- Values that are keys are one key when they are raw-equal. -/
theorem Value.key?_eq_key?_iff {a b : Value} (ha : a.isKey = true) (hb : b.isKey = true) :
    a.key? = b.key? ↔ a.rawEqual b = true := by
  cases a with
  | nil => cases ha
  | number x =>
      have hx : x.isNaN = false := by simpa [isKey] using ha
      cases b with
      | nil => cases hb
      | number y =>
          have hy : y.isNaN = false := by simpa [isKey] using hb
          simp [key?, rawEqual, Binary64.equal, hx, hy, Key.ofNumber_eq_iff]
      | boolean _ | string _ | table _ | function _ => simp [key?, rawEqual, hx, Key.ofNumber]
  | boolean _ | string _ | table _ | function _ =>
      cases b with
      | nil => cases hb
      | number y =>
          have hy : y.isNaN = false := by simpa [isKey] using hb
          simp [key?, rawEqual, hy, Key.ofNumber]
      | boolean _ | string _ | table _ | function _ => simp [key?, rawEqual]

/-! ### Slots -/

/-- The slot of the array part that a key names, counted from zero. -/
def Key.slot? : Key → Option Nat
  | .number x => (Value.number x).slot?
  | _ => none

/-- The key that counting gives for a slot. -/
def Key.ofSlot (i : Nat) : Key := .ofNumber (.ofNat (i + 1))

/-- A number names a slot when it is the integer after it. -/
theorem Value.slot?_number_eq_some_iff {x : Binary64} {i : Nat} :
    (Value.number x).slot? = some i ↔ x.toInteger? = some ((i : Int) + 1) := by
  simp only [slot?, asInteger?, asNumber?, Option.bind_some]
  cases x.toInteger? with
  | none => simp
  | some n =>
      by_cases hn : 1 ≤ n
      · simp only [hn, if_true, Option.some.injEq]
        omega
      · simp only [hn, if_false, Option.some.injEq]
        constructor
        · intro h
          cases h
        · intro h
          omega

/-- Numbers of one value name one slot. -/
theorem Value.slot?_number_congr {x y : Binary64} (h : x.value = y.value) :
    (Value.number x).slot? = (Value.number y).slot? := by
  have hi := Binary64.index_eq_of_value_eq h
  have hf : x.isFinite = y.isFinite := by simp only [Binary64.isFinite, hi]
  have ht : x.toInteger? = y.toInteger? := by
    apply Option.ext
    intro n
    rw [Binary64.toInteger?_eq_some_iff, Binary64.toInteger?_eq_some_iff, hf, h]
  simp only [slot?, asInteger?, asNumber?, Option.bind_some, ht]

/-- The slot that a value names depends on its key alone. -/
theorem Value.slot?_eq_of_key? {v : Value} {k : Key} (h : v.key? = some k) : v.slot? = k.slot? := by
  cases v with
  | nil => cases h
  | number x =>
      have hk : k = Key.ofNumber x := by
        cases hx : x.isNaN <;> simp [key?, hx] at h
        exact h.symm
      subst hk
      -- The number in the key is the number itself, or the other zero.
      refine Value.slot?_number_congr ?_
      by_cases hz : x.isZero = true
      · rw [if_pos hz, (Binary64.isZero_iff_value_eq_zero x).1 hz]
        decide
      · rw [if_neg hz]
  | boolean _ | string _ | table _ | function _ =>
      cases h
      rfl

/-- What is no key names no slot. -/
theorem Value.slot?_eq_none_of_key? {v : Value} (h : v.key? = none) : v.slot? = none := by
  cases v with
  | number x =>
      have hx : x.isNaN = true := by
        cases hx : x.isNaN <;> simp [key?, hx] at h ⊢
      apply Option.eq_none_iff_forall_ne_some.2
      intro i hi
      -- What names a slot is an integer, so finite, and a NaN stands above infinity.
      have hf := (Binary64.toInteger?_eq_some_iff.1 (Value.slot?_number_eq_some_iff.1 hi)).1
      simp only [Binary64.isFinite, Binary64.isNaN, decide_eq_true_eq] at hf hx
      omega
  | nil => rfl
  | boolean _ | string _ | table _ | function _ => cases h

/-! ### Integers as keys -/

/-- Every integer is a key, by the number nearest to it. -/
theorem Value.key?_ofInt (n : Int) : (Value.ofInt n).key? = some (.ofNumber (.ofInt n)) := by
  simp [ofInt, key?, Binary64.not_isNaN_ofInt]

theorem Value.isKey_ofInt (n : Int) : (Value.ofInt n).isKey = true := isKey_iff.2 ⟨_, key?_ofInt n⟩

theorem Value.key?_ofInt_succ (i : Nat) : (Value.ofInt (i + 1)).key? = some (.ofSlot i) :=
  key?_ofInt _

namespace Key

/-- No two keys name one slot. -/
theorem eq_of_slot?_eq {j k : Key} {i : Nat} (hj : j.slot? = some i) (hk : k.slot? = some i) :
    j = k := by
  cases j with
  | number x =>
      cases k with
      | number y =>
          obtain ⟨-, hx, -⟩ :=
            Binary64.toInteger?_eq_some_iff.1 (Value.slot?_number_eq_some_iff.1 hj)
          obtain ⟨-, hy, -⟩ :=
            Binary64.toInteger?_eq_some_iff.1 (Value.slot?_number_eq_some_iff.1 hk)
          have hpos : (0 : Int) < ((i : Int) + 1) * Binary64.one :=
            Int.mul_pos (by omega) (by exact_mod_cast Binary64.one_pos)
          rw [Binary64.eq_of_value_eq (hx.trans hy.symm) (by omega)]
      | boolean _ | string _ | table _ | function _ => cases hk
  | boolean _ | string _ | table _ | function _ => cases hj

/-- Up to `2⁵³`, counting gives each slot its key. -/
theorem slot?_ofSlot {i : Nat} (h : i < 2 ^ 53) : (ofSlot i).slot? = some i := by
  have ht : (Binary64.ofNat (i + 1)).toInteger? = some ((i : Int) + 1) :=
    Binary64.toInteger?_ofNat h
  rw [← Value.slot?_eq_of_key? (Value.key?_ofInt_succ i)]
  exact Value.slot?_number_eq_some_iff.2 ht

theorem eq_ofSlot {k : Key} {i : Nat} (hi : i < 2 ^ 53) (hk : k.slot? = some i) : k = ofSlot i :=
  eq_of_slot?_eq hk (slot?_ofSlot hi)

/-- No key names slot `2⁵³`. -/
theorem slot?_ne_limit (k : Key) : k.slot? ≠ some (2 ^ 53) := by
  cases k with
  | number x =>
      intro hk
      obtain ⟨-, hv, -⟩ := Binary64.toInteger?_eq_some_iff.1 (Value.slot?_number_eq_some_iff.1 hk)
      refine Binary64.rung_ne_succ_mul_one x.index ?_
      change x.magnitude = _
      rw [Binary64.magnitude_eq_natAbs, hv, Int.natAbs_mul]
      rfl
  | boolean _ | string _ | table _ | function _ => exact nofun

/-- Counting to slot `2⁵³` gives the key of the slot before it. -/
theorem slot?_ofSlot_of_le {i : Nat} (h : i ≤ 2 ^ 53) :
    (ofSlot i).slot? = some (min i (2 ^ 53 - 1)) := by
  rcases Nat.lt_or_eq_of_le h with hlt | rfl
  · rw [Nat.min_eq_left (by omega)]
    exact slot?_ofSlot hlt
  · have hround : ofSlot (2 ^ 53) = ofSlot (2 ^ 53 - 1) := by decide +kernel
    rw [hround]
    exact slot?_ofSlot (by decide)

end Key

end LuaKernel
