import LuaKernel.Proofs.Number.Words
import LuaKernel.Proofs.Table.Representation
import Mathlib.Logic.Relation

/-!
# Keys, slots and raw equality

A value names a key, an integer also names a slot of the array part, and a table that takes entries
over into its array part finds their keys by counting its slots.  The three agree, and raw equality
decides (`keys_coincide_with_rawEqual`).

Numbers are raw-equal if they have the same bits or both are zero (`Binary64.equal_iff`), so a key
can go by bits.  Raw-equal values are the same integer (`Value.isInteger_congr`), and the slot of a
value is the integer before it (`Value.slot?_eq_some_iff`); hence raw-equal values have one slot.
Up to slot `2⁵³ - 1`, the values with a slot are the ones with the key that counting gives for it
(`Value.slot?_eq_some_iff_key?`).

So the table that takes entries over moves, at each step, the entry of the number with the next slot
(`Table.Moves`, `Table.moves_iff`), and it ends when there is no such entry
(`Table.migrateSteps_moves`).
-/

namespace LuaKernel

/-! ### Raw equality -/

/-- Numbers are equal if they are no NaN, and are the same number or two zeros. -/
theorem Binary64.equal_iff {x y : Binary64} : x.equal y = true ↔
    x.isNaN = false ∧ y.isNaN = false ∧ (x = y ∨ x.isZero = true ∧ y.isZero = true) := by
  have hvalue : x.value = y.value ↔ x = y ∨ x.isZero = true ∧ y.isZero = true := by
    rw [isZero_iff_value_eq_zero, isZero_iff_value_eq_zero]
    constructor
    · intro h
      by_cases hx : x.value = 0
      · exact .inr ⟨hx, h ▸ hx⟩
      · exact .inl (eq_of_value_eq h hx)
    · rintro (rfl | ⟨hx, hy⟩)
      · rfl
      · rw [hx, hy]
  simp only [equal, Bool.and_eq_true, Bool.not_eq_true', decide_eq_true_eq, hvalue, and_assoc]

namespace Value

theorem rawEqual_comm (a b : Value) : a.rawEqual b = b.rawEqual a := by
  cases a <;> cases b <;> simp [rawEqual, Binary64.equal, Bool.and_comm, eq_comm, Bool.beq_comm]

/-- What is no key is nil or a NaN. -/
theorem key?_eq_none_iff_nil_or_nan {v : Value} :
    v.key? = none ↔ v = .nil ∨ ∃ x, v = .number x ∧ x.isNaN = true := by
  rw [key?_eq_none_iff]
  cases v <;> simp [isKey]

/-! ### Integers among the values -/

/-- A value is an integer: a number that has exactly its value. -/
def IsInteger (v : Value) (n : Int) : Prop :=
  ∃ x : Binary64, v = .number x ∧ x.isFinite = true ∧ x.value = n * Binary64.one

theorem IsInteger.of_rawEqual {a b : Value} {n : Int} (ha : a.IsInteger n)
    (h : a.rawEqual b = true) : b.IsInteger n := by
  obtain ⟨x, rfl, hfinite, hvalue⟩ := ha
  cases b with
  | number y =>
      have hxy : x.value = y.value := by
        simp only [rawEqual, Binary64.equal, Bool.and_eq_true, decide_eq_true_eq] at h
        exact h.2
      have hindex := Binary64.index_eq_of_value_eq hxy
      refine ⟨y, rfl, ?_, hxy ▸ hvalue⟩
      simpa only [Binary64.isFinite, hindex] using hfinite
  | nil | boolean _ | string _ | table _ | function _ => cases h

/-- Raw-equal values are the same integer, if they are one. -/
theorem isInteger_congr {a b : Value} (h : a.rawEqual b = true) (n : Int) :
    a.IsInteger n ↔ b.IsInteger n :=
  ⟨fun ha => ha.of_rawEqual h, fun hb => hb.of_rawEqual (rawEqual_comm a b ▸ h)⟩

/-- If a value is an integer, then so is the integer made into a value, and the two
are raw-equal. -/
theorem IsInteger.ofInt {v : Value} {n : Int} (h : v.IsInteger n) :
    (Value.ofInt n).IsInteger n ∧ (Value.ofInt n).rawEqual v = true := by
  obtain ⟨x, rfl, hfinite, hvalue⟩ := h
  obtain ⟨hback, hback', hequal⟩ := Binary64.ofInt_of_value_eq hfinite hvalue
  exact ⟨⟨_, rfl, hback', hback⟩, hequal⟩

/-! ### Slots -/

/-- The slot of a value is the integer before it. -/
theorem slot?_eq_some_iff {v : Value} {i : Nat} :
    v.slot? = some i ↔ v.IsInteger (i + 1) ∧ (i : Int) + 1 < 2 ^ 63 := by
  cases v with
  | number x =>
      rw [slot?_number_eq_some_iff, Binary64.toInteger?_eq_some_iff, Library.fitsWord_iff]
      constructor
      · rintro ⟨hfinite, hvalue, hfits⟩
        exact ⟨⟨x, rfl, hfinite, hvalue⟩, by omega⟩
      · rintro ⟨⟨y, hy, hfinite, hvalue⟩, hlt⟩
        cases hy
        exact ⟨hfinite, hvalue, by omega⟩
  | nil | boolean _ | string _ | table _ | function _ =>
      refine ⟨nofun, ?_⟩
      rintro ⟨⟨x, hx, -⟩, -⟩
      cases hx

/-- Raw-equal values name one slot. -/
theorem slot?_eq_of_rawEqual {a b : Value} (h : a.rawEqual b = true) : a.slot? = b.slot? := by
  apply Option.ext
  intro i
  rw [slot?_eq_some_iff, slot?_eq_some_iff, isInteger_congr h]

/-- The values with a slot are the ones that are raw-equal to an integer, which must be a number
itself. -/
theorem slot?_eq_some_iff_rawEqual {v : Value} {i : Nat} :
    v.slot? = some i ↔ (Value.ofInt (i + 1)).IsInteger (i + 1) ∧ (i : Int) + 1 < 2 ^ 63 ∧
      (Value.ofInt (i + 1)).rawEqual v = true := by
  rw [slot?_eq_some_iff]
  constructor
  · rintro ⟨hv, hlt⟩
    obtain ⟨hinteger, hequal⟩ := hv.ofInt
    exact ⟨hinteger, hlt, hequal⟩
  · rintro ⟨hinteger, hlt, hequal⟩
    exact ⟨hinteger.of_rawEqual hequal, hlt⟩

/-- Up to `2⁵³`, the values with a slot are the ones with the key that counting gives for it. -/
theorem slot?_eq_some_iff_key? {v : Value} {i : Nat} (hi : i < 2 ^ 53) :
    v.slot? = some i ↔ v.key? = some (.ofSlot i) := by
  constructor
  · intro hv
    cases hk : v.key? with
    | none =>
        rw [slot?_eq_none_of_key? hk] at hv
        cases hv
    | some k =>
        rw [slot?_eq_of_key? hk] at hv
        rw [Key.eq_ofSlot hi hv]
  · intro hk
    rw [slot?_eq_of_key? hk, Key.slot?_ofSlot hi]

end Value

/-- Counting never comes to zero, so it can take the bits as they are. -/
theorem Key.ofSlot_eq_number {i : Nat} (hi : i < 2 ^ 53) :
    Key.ofSlot i = .number (.ofNat (i + 1)) := by
  have hvalue : (Binary64.ofNat (i + 1)).value ≠ 0 := by
    have hone : (0 : Int) < Binary64.one := by exact_mod_cast Binary64.one_pos
    rw [(Binary64.value_ofNat hi).1]
    exact Int.ne_of_gt (Int.mul_pos (by omega) hone)
  rw [ofSlot, ofNumber, if_neg fun hzero => hvalue ((Binary64.isZero_iff_value_eq_zero _).1 hzero)]

/-! ### Taking entries over -/

namespace Table

/-- One entry moves to the end of the array part: the one of the values that have the slot there. -/
def Moves (t t' : Table) : Prop :=
  ∃ (v : Value) (k : Key) (w : Value), v.slot? = some t.array.size ∧ v.key? = some k ∧
    t.hash.get? k = some w ∧ t' = { t with array := t.array.push w, hash := t.hash.erase k }

/-- Counting finds the entry that moves. -/
theorem moves_iff {t t' : Table} (ht : t.array.size < 2 ^ 53) : Moves t t' ↔
    ∃ w, t.hash.get? (.ofSlot t.array.size) = some w ∧
      t' = { t with array := t.array.push w, hash := t.hash.erase (.ofSlot t.array.size) } := by
  constructor
  · rintro ⟨v, k, w, hslot, hk, hw, rfl⟩
    have hkey := (Value.slot?_eq_some_iff_key? ht).1 hslot
    obtain rfl := Option.some.inj (hk.symm.trans hkey)
    exact ⟨w, hw, rfl⟩
  · rintro ⟨w, hw, rfl⟩
    have hkey := Value.key?_ofInt_succ t.array.size
    exact ⟨_, _, w, (Value.slot?_eq_some_iff_key? ht).2 hkey, hkey, hw, rfl⟩

/-- One step moves the entry that can move, if there is one, and otherwise is the last. -/
theorem migrateSteps_succ (n : Nat) {t : Table} (ht : t.array.size < 2 ^ 53) :
    (∃ t', Moves t t' ∧ migrateSteps (n + 1) t = migrateSteps n t') ∨
    (∀ t', ¬ Moves t t') ∧ migrateSteps (n + 1) t = t := by
  cases hg : t.hash.get? (.ofSlot t.array.size) with
  | some w => exact .inl ⟨_, (moves_iff ht).2 ⟨w, hg, rfl⟩, migrateSteps_of_some hg⟩
  | none =>
      refine .inr ⟨fun t' hmoves => ?_, migrateSteps_of_none hg⟩
      obtain ⟨w, hw, -⟩ := (moves_iff ht).1 hmoves
      cases hg.symm.trans hw

theorem Moves.hash_size {t t' : Table} (h : Moves t t') : t'.hash.size + 1 = t.hash.size := by
  obtain ⟨v, k, w, -, -, hw, rfl⟩ := h
  have hsize := t.hash.size_erase k
  rwa [hw, Option.isSome_some, if_pos rfl] at hsize

theorem size_le_migrateSteps (n : Nat) (t : Table) :
    t.array.size ≤ (migrateSteps n t).array.size := by
  refine migrateSteps_induction (P := fun u => t.array.size ≤ u.array.size) (fun u v hle _ => ?_) n
    (Nat.le_refl _)
  rw [Array.size_push]
  exact Nat.le_succ_of_le hle

/-- With a step for each entry of the hash part, entries move until none can. -/
theorem migrateSteps_moves {n : Nat} {t : Table} (hn : t.hash.size ≤ n)
    (ht : (migrateSteps n t).array.size < 2 ^ 53) :
    Relation.ReflTransGen Moves t (migrateSteps n t) ∧ ∀ t', ¬ Moves (migrateSteps n t) t' := by
  -- Each move takes an entry from the hash part, so the steps that are left are still enough.
  induction n generalizing t with
  | zero =>
      refine ⟨.refl, fun t' hmoves => ?_⟩
      rw [migrateSteps] at hmoves
      have hsize := hmoves.hash_size
      omega
  | succ n ih =>
      have hsize := Nat.lt_of_le_of_lt (size_le_migrateSteps _ _) ht
      rcases migrateSteps_succ n hsize with ⟨t', hmoves, heq⟩ | ⟨hnone, heq⟩
      · rw [heq] at ht ⊢
        have hfewer := hmoves.hash_size
        obtain ⟨hrun, hend⟩ := ih (by omega) ht
        exact ⟨.head hmoves hrun, hend⟩
      · rw [heq]
        exact ⟨.refl, hnone⟩

end Table

/-- **Keys coincide with raw equality.**  All values but nil and the NaNs are keys, and two of them
are one key if and only if they are raw-equal; numbers are so if they have the same bits or both are
zero.  A value has a slot if and only if it is the integer after it, and this integer is a word;
that is, if it is raw-equal to the integer made into a value, which must not have been rounded.  So
raw-equal values have one slot.  Up to `2⁵³`, each slot has a value, and counting gives the key of
the values that have it, by the bits of a number.  When entries are taken over into the array part
of a table, the entry of the values with the next slot moves again and again, until there
is none. -/
theorem keys_coincide_with_rawEqual :
    (∀ v : Value, v.key? = none ↔ v = .nil ∨ ∃ x, v = .number x ∧ x.isNaN = true) ∧
    (∀ (a b : Value) (j k : Key), a.key? = some j → b.key? = some k →
      (j = k ↔ a.rawEqual b = true)) ∧
    (∀ x y : Binary64, (Value.number x).rawEqual (.number y) = true ↔
      x.isNaN = false ∧ y.isNaN = false ∧ (x.bits = y.bits ∨ x.isZero = true ∧ y.isZero = true)) ∧
    (∀ (v : Value) (i : Nat), v.slot? = some i ↔ v.IsInteger (i + 1) ∧ (i : Int) + 1 < 2 ^ 63) ∧
    (∀ (v : Value) (i : Nat), v.slot? = some i ↔ (Value.ofInt (i + 1)).IsInteger (i + 1) ∧
      (i : Int) + 1 < 2 ^ 63 ∧ (Value.ofInt (i + 1)).rawEqual v = true) ∧
    (∀ a b : Value, a.rawEqual b = true → a.slot? = b.slot?) ∧
    (∀ i : Nat, i < 2 ^ 53 → (Value.ofInt (i + 1)).slot? = some i ∧
      Key.ofSlot i = .number (.ofNat (i + 1)) ∧
      ∀ v : Value, v.slot? = some i ↔ v.key? = some (.ofSlot i)) ∧
    ∀ t : Table, t.migrate.array.size < 2 ^ 53 →
      Relation.ReflTransGen Table.Moves t t.migrate ∧ ∀ t', ¬ Table.Moves t.migrate t' := by
  refine ⟨fun v => Value.key?_eq_none_iff_nil_or_nan, fun a b j k ha hb => ?_, fun x y => ?_,
    fun v i => Value.slot?_eq_some_iff, fun v i => Value.slot?_eq_some_iff_rawEqual,
    fun a b => Value.slot?_eq_of_rawEqual,
    fun i hi => ⟨(Value.slot?_eq_some_iff_key? hi).2 (Value.key?_ofInt_succ i),
      Key.ofSlot_eq_number hi, fun v => Value.slot?_eq_some_iff_key? hi⟩,
    fun t ht => Table.migrateSteps_moves (Nat.le_refl _) ht⟩
  · rw [← Value.key?_eq_key?_iff (Value.isKey_iff.2 ⟨j, ha⟩) (Value.isKey_iff.2 ⟨k, hb⟩), ha, hb,
      Option.some.injEq]
  · have hbits : x.bits = y.bits ↔ x = y := ⟨fun h => by cases x; cases h; rfl, congrArg _⟩
    rw [hbits, ← Binary64.equal_iff]
    rfl

/-- A table with `1` in the array part and `2`, `3` and `5` in the hash part, as it is when `1` has
just been appended. -/
def Table.appended : Table where
  array := #[.string "a"]
  hash := ((Assoc.empty.insert (.ofSlot 2) (.string "c")).insert (.ofSlot 4) (.string "e")).insert
    (.ofSlot 1) (.string "b")
  metatable := none

/-- The zeros are one key, `2⁵³` has the last slot that counting reaches, and `2` and `3` are taken
over. -/
theorem appended_coincides :
    (Value.number (.ofIndex true 0)).key? = some (.number .zero) ∧
    (Value.number .zero).key? = some (.number .zero) ∧
    (Value.number (.ofIndex true 0)).rawEqual (.number .zero) = true ∧
    (Value.number (.ofIndex true 0)).slot? = (Value.number .zero).slot? ∧
    (Value.ofInt (2 ^ 53)).key? = some (.ofSlot (2 ^ 53 - 1)) ∧
    (Value.ofInt (2 ^ 53)).slot? = some (2 ^ 53 - 1) ∧
    Table.appended.migrate.array.size = 3 ∧
    Relation.ReflTransGen Table.Moves Table.appended Table.appended.migrate ∧
    ∀ t', ¬ Table.Moves Table.appended.migrate t' := by
  obtain ⟨-, hkeys, -, -, -, hslots, hcount, hmoves⟩ := keys_coincide_with_rawEqual
  have hnegative : (Value.number (.ofIndex true 0)).key? = some (.number .zero) := by decide
  have hpositive : (Value.number .zero).key? = some (.number .zero) := by decide
  have hlast : (Value.ofInt (2 ^ 53)).key? = some (.ofSlot (2 ^ 53 - 1)) := by decide +kernel
  have hthree : Table.appended.migrate.array.size = 3 := by decide +kernel
  have hequal := (hkeys _ _ _ _ hnegative hpositive).1 rfl
  exact ⟨hnegative, hpositive, hequal, hslots _ _ hequal, hlast,
    ((hcount _ (by decide)).2.2 _).2 hlast, hthree, hmoves _ (by rw [hthree]; decide)⟩

end LuaKernel
