import LuaKernel.Proofs.Table.Keys
import LuaKernel.Table.Basic

/-!
# The representation of tables

A key can live in the array part or in the hash part of a table, and moves between them: an append
takes over the entries that follow it, and a deletion at the end of the array part gives up all the
slots that have become empty.  What makes reading find every key in the right place is one
invariant (`Normal`): the array part does not end in nil, and the hash part holds no nil and no key
of a slot of the array part, nor of the slot after it.

Reading is a function of the key (`Table.get`, `rawGet_eq_get`), and the law of writing is that it
changes what one key reads (`store_spec`).  Both it and the invariant need that the array part has
at most `2⁵³` slots, so that no slot is beyond the integers that are numbers.  It never has more:
the append that would make one more is at an integer that is no number.  While an append moves
entries, the invariant holds except for the slot after the array part (`Apart`); the induction over
the moves carries that (`migrateSteps_spec`).
-/

namespace LuaKernel.Table

/-! ### Reading by keys -/

/-- The value of a key: from its slot if the array part has it, and else from the hash part. -/
def get (t : Table) (k : Key) : Value := (k.slot?.bind fun i => t.array[i]?).getD (t.hashGet k)

theorem rawGet_eq_get (t : Table) {v : Value} {k : Key} (h : v.key? = some k) :
    t.rawGet v = t.get k := by
  have hs := Value.slot?_eq_of_key? h
  simp only [rawGet, get, h, hs]
  cases k.slot? with
  | none => rfl
  | some i =>
      by_cases hi : i < t.array.size
      · simp [hi]
      · simp [hi]

/-- What is no key reads nil. -/
theorem rawGet_eq_nil (t : Table) {v : Value} (h : v.key? = none) : t.rawGet v = .nil := by
  simp only [rawGet, h, Value.slot?_eq_none_of_key? h]

theorem get_of_slot_none {t : Table} {k : Key} (h : k.slot? = none) : t.get k = t.hashGet k := by
  simp [get, h]

theorem get_of_size_le {t : Table} {k : Key} {i : Nat} (h : k.slot? = some i)
    (hi : t.array.size ≤ i) : t.get k = t.hashGet k := by
  simp [get, h, hi]

/-- A key without an entry in the hash part reads its slot. -/
theorem get_of_absent {t : Table} {k : Key} {i : Nat} (h : k.slot? = some i)
    (ha : t.hash.get? k = none) : t.get k = t.array[i]?.getD .nil := by
  simp [get, h, hashGet, ha]

/-! ### Trimming -/

/-- Trimming takes nils away, and nothing else. -/
theorem trimSteps_append (n : Nat) (a : Array Value) :
    ∃ c, a = trimSteps n a ++ Array.replicate c Value.nil := by
  induction n generalizing a with
  | zero => exact ⟨0, by simp [trimSteps]⟩
  | succ n ih =>
      simp only [trimSteps]
      split
      · rename_i hb
        obtain ⟨c, hc⟩ := ih a.pop
        refine ⟨c + 1, ?_⟩
        obtain ⟨xs, rfl⟩ := Array.back?_eq_some_iff.1 hb
        rw [Array.pop_push] at hc ⊢
        rw [Array.replicate_succ, Array.append_push, ← hc]
      · exact ⟨0, by simp⟩

/-- A trimmed array does not end in nil. -/
theorem back?_trimSteps {n : Nat} {a : Array Value} (h : a.size ≤ n) :
    (trimSteps n a).back? ≠ some .nil := by
  induction n generalizing a with
  | zero =>
      have ha : a = #[] := Array.eq_empty_of_size_eq_zero (by omega)
      simp [trimSteps, ha]
  | succ n ih =>
      simp only [trimSteps]
      split
      · exact ih (by rw [Array.size_pop]; omega)
      · assumption

theorem back?_trim (a : Array Value) : (trim a).back? ≠ some .nil := back?_trimSteps (Nat.le_refl _)

theorem size_trim_le (a : Array Value) : (trim a).size ≤ a.size := by
  obtain ⟨c, hc⟩ := trimSteps_append a.size a
  have := congrArg Array.size hc
  rw [Array.size_append] at this
  unfold trim
  omega

/-- Where nothing reads nil, trimming changes no reading. -/
theorem getD_trim (a : Array Value) (i : Nat) : (trim a)[i]?.getD .nil = a[i]?.getD .nil := by
  obtain ⟨c, hc⟩ := trimSteps_append a.size a
  unfold trim
  conv_rhs => rw [hc]
  rw [Array.getElem?_append]
  split
  · rfl
  · rename_i hi
    rw [Array.getElem?_eq_none (by omega), Array.getElem?_replicate]
    split <;> rfl

/-! ### The invariant -/

/-- The two parts are apart: the array part does not end in nil, and the hash part holds no nil, no
key of a slot of the array part, and only keys of values. -/
structure Apart (t : Table) : Prop where
  back_ne_nil : t.array.back? ≠ some .nil
  hash_ne_nil : ∀ k v, t.hash.get? k = some v → v ≠ .nil
  hash_absent : ∀ k i, k.slot? = some i → i < t.array.size → t.hash.get? k = none
  hash_key : ∀ k v, t.hash.get? k = some v → ∃ key : Value, key.key? = some k

/-- The parts are apart, and the hash part does not hold the key of the slot after the array part
either. -/
structure Normal (t : Table) : Prop extends Apart t where
  next_absent : t.hash.get? (.ofSlot t.array.size) = none

/-- How many entries the two parts have room for: an entry of the hash part each, and a slot of the
array part each, be it empty or not. -/
def extent (t : Table) : Nat := t.array.size + t.hash.size

/-- The empty table is normal. -/
theorem normal_empty : Normal empty where
  back_ne_nil := by simp [empty]
  hash_ne_nil _ _ h := by cases h
  hash_absent _ _ _ _ := rfl
  hash_key _ _ h := by cases h
  next_absent := rfl

/-- The slots of the array part are integers that are numbers, with room for one more. -/
theorem size_lt_of_extent_lt {t : Table} (h : t.extent < 2 ^ 53) : t.array.size < 2 ^ 53 :=
  Nat.lt_of_le_of_lt (Nat.le_add_right _ _) h

/-- The slot after the array part is the slot of a number, or the first that is none. -/
theorem size_lt_of_slot? {t : Table} (ht : t.array.size ≤ 2 ^ 53) {k : Key}
    (hk : k.slot? = some t.array.size) : t.array.size < 2 ^ 53 :=
  Nat.lt_of_le_of_ne ht fun e => k.slot?_ne_limit (e ▸ hk)

/-- The hash part of a normal table holds no key up to the slot after the array part. -/
theorem Normal.hash_absent_of_slot_le {t : Table} (h : Normal t) (ht : t.array.size ≤ 2 ^ 53)
    {k : Key} {i : Nat} (hk : k.slot? = some i) (hi : i ≤ t.array.size) : t.hash.get? k = none := by
  rcases Nat.lt_or_eq_of_le hi with hlt | rfl
  · exact h.hash_absent k i hk hlt
  · rw [Key.eq_ofSlot (size_lt_of_slot? ht hk) hk]
    exact h.next_absent

theorem Normal.hash_absent_of_le {t : Table} (h : Normal t) (ht : t.extent < 2 ^ 53) {k : Key}
    {i : Nat} (hk : k.slot? = some i) (hi : i ≤ t.array.size) : t.hash.get? k = none :=
  h.hash_absent_of_slot_le (Nat.le_of_lt (size_lt_of_extent_lt ht)) hk hi

/-! ### Writing to the hash part -/

theorem array_hashSet (t : Table) (k : Key) (v : Value) : (t.hashSet k v).array = t.array := by
  unfold hashSet
  split <;> rfl

/-- A write to the hash part changes one entry of it, or erases it. -/
theorem get?_hashSet (t : Table) (k : Key) (v : Value) (j : Key) :
    (t.hashSet k v).hash.get? j =
      if j = k then (if v = .nil then none else some v) else t.hash.get? j := by
  unfold hashSet
  cases v with
  | nil => simp [Value.isNil, Assoc.get?_erase]
  | boolean _ | number _ | string _ | table _ | function _ =>
      simp [Value.isNil, Assoc.get?_insert]

theorem extent_hashSet_le (t : Table) (k : Key) (v : Value) :
    (t.hashSet k v).extent ≤ t.extent + 1 := by
  have he := t.hash.size_erase_le k
  have hi := t.hash.size_insert_le k v
  unfold hashSet extent
  split <;> simp only <;> omega

/-- A write to the hash part is read, if the array part has no slot for its key. -/
theorem get_hashSet {t : Table} {k : Key} (v : Value)
    (hk : ∀ i, k.slot? = some i → t.array.size ≤ i) (j : Key) :
    (t.hashSet k v).get j = if j = k then v else t.get j := by
  have hg : (t.hashSet k v).hashGet j = if j = k then v else t.hashGet j := by
    unfold hashGet
    rw [get?_hashSet]
    by_cases hj : j = k <;> by_cases hv : v = .nil <;> simp [hj, hv]
  by_cases hj : j = k
  · subst hj
    rw [if_pos rfl] at hg ⊢
    cases hs : j.slot? with
    | none => rw [get_of_slot_none hs, hg]
    | some i => rw [get_of_size_le hs ((array_hashSet t j v).symm ▸ hk i hs), hg]
  · rw [if_neg hj] at hg ⊢
    simp only [get, array_hashSet, hg]

/-- A write to the hash part keeps a table normal if the key has no slot in the array part, and,
unless the write deletes, not the slot after it. -/
theorem normal_hashSet {t : Table} (h : Normal t) (ht : t.array.size ≤ 2 ^ 53) {k : Key} {v : Value}
    (hkey : ∃ key : Value, key.key? = some k) (hk : ∀ i, k.slot? = some i → t.array.size ≤ i)
    (hv : k.slot? = some t.array.size → v = .nil) : Normal (t.hashSet k v) := by
  refine ⟨⟨array_hashSet t k v ▸ h.back_ne_nil, fun j w hj => ?_, fun j i hji hi => ?_,
    fun j w hj => ?_⟩, ?_⟩
  · rw [get?_hashSet] at hj
    by_cases hjk : j = k <;> by_cases hv0 : v = .nil <;> simp only [hjk, hv0, if_true, if_false,
      reduceCtorEq, Option.some.injEq] at hj
    · exact hj ▸ hv0
    · exact h.hash_ne_nil j w hj
    · exact h.hash_ne_nil j w hj
  · rw [array_hashSet] at hi
    have hjk : j ≠ k := fun e => absurd (hk i (e ▸ hji)) (Nat.not_le.2 hi)
    rw [get?_hashSet, if_neg hjk]
    exact h.hash_absent j i hji hi
  · by_cases hjk : j = k
    · exact hjk ▸ hkey
    · rw [get?_hashSet, if_neg hjk] at hj
      exact h.hash_key j w hj
  · rw [array_hashSet, get?_hashSet]
    split
    · rename_i e
      -- The key has no slot in the array part, so counting has not reached `2⁵³`.
      have hs : k.slot? = some (min t.array.size (2 ^ 53 - 1)) := e ▸ Key.slot?_ofSlot_of_le ht
      have hle := hk _ hs
      have hmin : min t.array.size (2 ^ 53 - 1) = t.array.size := by omega
      rw [if_pos (hv (hmin ▸ hs))]
    · exact h.next_absent

/-! ### Writing to the array part -/

/-- A table with another value in a slot of the array part, which is then trimmed, is normal, and
one key reads otherwise. -/
theorem overwrite_spec {t t' : Table} (h : Normal t) (ht : t.array.size ≤ 2 ^ 53) {k : Key}
    {i : Nat} {v : Value} (hk : k.slot? = some i) (hi : i < t.array.size)
    (harray : t'.array = trim (t.array.setIfInBounds i v)) (hhash : t'.hash = t.hash) :
    Normal t' ∧ t'.array.size ≤ 2 ^ 53 ∧ ∀ j, t'.get j = if j = k then v else t.get j := by
  have hsize : t'.array.size ≤ t.array.size := by
    rw [harray]
    exact Nat.le_trans (size_trim_le _) (Nat.le_of_eq Array.size_setIfInBounds)
  have hg : ∀ j, t'.hashGet j = t.hashGet j := fun j => by rw [hashGet, hashGet, hhash]
  refine ⟨⟨⟨harray ▸ back?_trim _, hhash ▸ h.hash_ne_nil, fun j p hj hp => ?_, hhash ▸ h.hash_key⟩,
    ?_⟩, Nat.le_trans hsize ht, fun j => ?_⟩
  · rw [hhash]
    exact h.hash_absent j p hj (Nat.lt_of_lt_of_le hp hsize)
  · rw [hhash]
    -- The array part can have got shorter: the slot after it may be one that it had.
    exact h.hash_absent_of_slot_le ht (Key.slot?_ofSlot_of_le (Nat.le_trans hsize ht)) (by omega)
  · cases hs : j.slot? with
    | none =>
        have hjk : j ≠ k := fun e => by
          rw [e, hk] at hs
          cases hs
        rw [get_of_slot_none hs, if_neg hjk, get_of_slot_none hs, hg]
    | some p =>
        by_cases hp : p < t.array.size
        · have ha := h.hash_absent j p hs hp
          rw [get_of_absent hs (hhash ▸ ha), get_of_absent hs ha, harray, getD_trim,
            Array.getElem?_setIfInBounds]
          by_cases hpi : i = p
          · subst hpi
            rw [if_pos (Key.eq_of_slot?_eq hs hk), if_pos rfl, if_pos hi]
            rfl
          · have hjk : j ≠ k := fun e => hpi (Option.some.inj (hk.symm.trans (e ▸ hs)))
            rw [if_neg hpi, if_neg hjk]
        · have hp' : t.array.size ≤ p := Nat.le_of_not_lt hp
          have hjk : j ≠ k := fun e => by
            rw [e, hk] at hs
            cases hs
            exact hp hi
          rw [get_of_size_le hs (Nat.le_trans hsize hp'), if_neg hjk, get_of_size_le hs hp', hg]

/-- A table with one more slot, whose key has left the hash part: the parts are apart, and one key
reads otherwise. -/
theorem push_spec {t t' : Table} (h : Apart t) {k : Key} {v : Value}
    (hk : k.slot? = some t.array.size) (hv : v ≠ .nil) (harray : t'.array = t.array.push v)
    (hhash : t'.hash = t.hash.erase k) :
    Apart t' ∧ ∀ j, t'.get j = if j = k then v else t.get j := by
  have hsub : ∀ {j w}, t'.hash.get? j = some w → t.hash.get? j = some w := by
    intro j w hj
    rw [hhash, Assoc.get?_erase] at hj
    split at hj
    · cases hj
    · exact hj
  have hother : ∀ {j}, j ≠ k → t'.hash.get? j = t.hash.get? j := fun hj => by
    rw [hhash, Assoc.get?_erase, if_neg hj]
  have hself : t'.hash.get? k = none := by rw [hhash, Assoc.get?_erase, if_pos rfl]
  refine ⟨⟨?_, fun j w hj => h.hash_ne_nil j w (hsub hj), fun j p hj hp => ?_,
    fun j w hj => h.hash_key j w (hsub hj)⟩, fun j => ?_⟩
  · rw [harray, Array.back?_push]
    exact fun e => hv (Option.some.inj e)
  · rw [harray, Array.size_push] at hp
    by_cases hjk : j = k
    · rw [hjk, hself]
    · have hne : p ≠ t.array.size := fun e => hjk (Key.eq_of_slot?_eq (e ▸ hj) hk)
      rw [hother hjk]
      exact h.hash_absent j p hj (by omega)
  · by_cases hjk : j = k
    · subst hjk
      rw [if_pos rfl, get_of_absent hk hself, harray, Array.getElem?_push_size]
      rfl
    · have hg : t'.hashGet j = t.hashGet j := by rw [hashGet, hashGet, hother hjk]
      rw [if_neg hjk]
      cases hs : j.slot? with
      | none => rw [get_of_slot_none hs, get_of_slot_none hs, hg]
      | some p =>
          have hne : p ≠ t.array.size := fun e => hjk (Key.eq_of_slot?_eq (e ▸ hs) hk)
          simp only [get, hs, hg, harray, Option.bind_some, Array.getElem?_push, if_neg hne]

/-! ### Moving entries to the array part -/

/-- Migration moves the entry at the slot after the array part. -/
theorem migrateSteps_of_some {n : Nat} {t : Table} {v : Value}
    (h : t.hash.get? (.ofSlot t.array.size) = some v) :
    migrateSteps (n + 1) t = migrateSteps n
      { t with array := t.array.push v, hash := t.hash.erase (.ofSlot t.array.size) } := by
  unfold Key.ofSlot at h ⊢
  simp only [migrateSteps, h]

/-- Migration ends when there is no such entry. -/
theorem migrateSteps_of_none {n : Nat} {t : Table} (h : t.hash.get? (.ofSlot t.array.size) = none) :
    migrateSteps n t = t := by
  unfold Key.ofSlot at h
  cases n with
  | zero => rfl
  | succ n => simp only [migrateSteps, h]

/-- What the move of one entry keeps, all moves together keep. -/
theorem migrateSteps_induction {P : Table → Prop}
    (hmove : ∀ (t : Table) (v : Value), P t → t.hash.get? (.ofSlot t.array.size) = some v →
      P { t with array := t.array.push v, hash := t.hash.erase (.ofSlot t.array.size) })
    (n : Nat) {t : Table} (h : P t) : P (migrateSteps n t) := by
  induction n generalizing t with
  | zero => exact h
  | succ n ih =>
      cases hg : t.hash.get? (.ofSlot t.array.size) with
      | none =>
          rw [migrateSteps_of_none hg]
          exact h
      | some v =>
          rw [migrateSteps_of_some hg]
          exact ih (hmove t v h hg)

/-- While there are entries to move, counting has not reached `2⁵³`. -/
theorem Apart.slot?_next {t : Table} (h : Apart t) (ht : t.array.size ≤ 2 ^ 53) {v : Value}
    (hg : t.hash.get? (.ofSlot t.array.size) = some v) :
    (Key.ofSlot t.array.size).slot? = some t.array.size := by
  have hs := Key.slot?_ofSlot_of_le ht
  have hmin : min t.array.size (2 ^ 53 - 1) = t.array.size := by
    by_contra hne
    rw [h.hash_absent _ _ hs (by omega)] at hg
    cases hg
  rw [hmin] at hs
  exact hs

/-- Moving entries to the array part ends with a normal table, and changes neither what a key reads
nor how many entries there are. -/
theorem migrateSteps_spec {n : Nat} {t : Table} (h : Apart t) (ht : t.array.size ≤ 2 ^ 53)
    (hn : t.hash.size ≤ n) :
    Normal (migrateSteps n t) ∧ (migrateSteps n t).array.size ≤ 2 ^ 53 ∧
      (∀ k, (migrateSteps n t).get k = t.get k) ∧ (migrateSteps n t).extent = t.extent := by
  -- While entries move, the slot after the array part may have its key in the hash part, so the
  -- induction carries `Apart` and only its end is normal.
  induction n generalizing t with
  | zero =>
      have hg : t.hash.get? (.ofSlot t.array.size) = none :=
        Assoc.get?_of_size_eq_zero (Nat.le_zero.1 hn) _
      exact ⟨⟨h, hg⟩, ht, fun _ => rfl, rfl⟩
  | succ n ih =>
      cases hg : t.hash.get? (.ofSlot t.array.size) with
      | none =>
          rw [migrateSteps_of_none hg]
          exact ⟨⟨h, hg⟩, ht, fun _ => rfl, rfl⟩
      | some v =>
          have hslot := h.slot?_next ht hg
          have hlt := size_lt_of_slot? ht hslot
          have hsize := t.hash.size_erase (.ofSlot t.array.size)
          rw [hg, Option.isSome_some, if_pos rfl] at hsize
          -- One entry moves: the extent is the same, and the hash part has one entry less.
          rw [migrateSteps_of_some hg]
          generalize hu :
            Table.mk (t.array.push v) (t.hash.erase (.ofSlot t.array.size)) t.metatable = u
          have harray : u.array = t.array.push v := by rw [← hu]
          have hhash : u.hash = t.hash.erase (.ofSlot t.array.size) := by rw [← hu]
          obtain ⟨hA, hget⟩ := push_spec h hslot (h.hash_ne_nil _ _ hg) harray hhash
          have hext : u.extent = t.extent := by
            rw [extent, extent, harray, hhash, Array.size_push]
            omega
          obtain ⟨hN, hle, hget', hext'⟩ :=
            ih hA (by rw [harray, Array.size_push]; omega) (by rw [hhash]; omega)
          refine ⟨hN, hle, fun j => ?_, hext'.trans hext⟩
          rw [hget', hget]
          split
          · rename_i hj
            rw [hj, get_of_size_le hslot (Nat.le_refl _), hashGet, hg]
            rfl
          · rfl

/-- An append to a normal table. -/
theorem append_spec {t : Table} (h : Normal t) (ht : t.array.size ≤ 2 ^ 53) {k : Key} {v : Value}
    (hk : k.slot? = some t.array.size) (hv : v ≠ .nil) :
    Normal (t.append k v) ∧ (t.append k v).array.size ≤ 2 ^ 53 ∧
      (t.append k v).extent ≤ t.extent + 1 ∧
      ∀ j, (t.append k v).get j = if j = k then v else t.get j := by
  unfold append
  generalize hu : Table.mk (t.array.push v) (t.hash.erase k) t.metatable = u
  have harray : u.array = t.array.push v := by rw [← hu]
  have hhash : u.hash = t.hash.erase k := by rw [← hu]
  obtain ⟨hA, hget⟩ := push_spec h.toApart hk hv harray hhash
  have hext : u.extent ≤ t.extent + 1 := by
    have := t.hash.size_erase_le k
    rw [extent, extent, harray, hhash, Array.size_push]
    omega
  have hlt := size_lt_of_slot? ht hk
  obtain ⟨hN, hle, hget', hext'⟩ :=
    migrateSteps_spec hA (by rw [harray, Array.size_push]; omega) (Nat.le_refl _)
  exact ⟨hN, hle, Nat.le_trans (Nat.le_of_eq hext') hext, fun j => (hget' j).trans (hget j)⟩

/-! ### Storing -/

theorem extent_overwrite_le {t t' : Table} {i : Nat} {v : Value}
    (harray : t'.array = trim (t.array.setIfInBounds i v)) (hhash : t'.hash = t.hash) :
    t'.extent ≤ t.extent := by
  have hsize := size_trim_le (t.array.setIfInBounds i v)
  rw [Array.size_setIfInBounds] at hsize
  rw [extent, extent, harray, hhash]
  omega

/-- What storing does to a normal table: it stays normal, grows by at most one entry, and one key
reads the stored value. -/
theorem store_spec {t : Table} (h : Normal t) (ht : t.array.size ≤ 2 ^ 53) {k : Key} (v : Value)
    (hkey : ∃ key : Value, key.key? = some k) :
    Normal (t.store k k.slot? v) ∧ (t.store k k.slot? v).array.size ≤ 2 ^ 53 ∧
      (t.store k k.slot? v).extent ≤ t.extent + 1 ∧
      ∀ j, (t.store k k.slot? v).get j = if j = k then v else t.get j := by
  have hsize : (t.hashSet k v).array.size ≤ 2 ^ 53 := (array_hashSet t k v).symm ▸ ht
  cases hs : k.slot? with
  | none =>
      have hk : ∀ i, k.slot? = some i → t.array.size ≤ i := fun i hi => by
        rw [hs] at hi
        cases hi
      exact ⟨normal_hashSet h ht hkey hk (fun hi => by rw [hs] at hi; cases hi), hsize,
        extent_hashSet_le t k v, get_hashSet v hk⟩
  | some i =>
      by_cases hi : i < t.array.size
      · simp only [store, if_pos hi]
        generalize hu : Table.mk (trim (t.array.setIfInBounds i v)) t.hash t.metatable = u
        have harray : u.array = trim (t.array.setIfInBounds i v) := by rw [← hu]
        have hhash : u.hash = t.hash := by rw [← hu]
        obtain ⟨hN, hle, hget⟩ := overwrite_spec h ht hs hi harray hhash
        exact ⟨hN, harray ▸ hle, Nat.le_succ_of_le (extent_overwrite_le harray hhash), hget⟩
      · -- A deletion at the slot after the array part is no append, and goes to the hash part.
        by_cases hc : i = t.array.size ∧ (!v.isNil) = true
        · simp only [store, if_neg hi, if_pos hc]
          obtain ⟨rfl, hv⟩ := hc
          exact append_spec h ht hs (fun e => by rw [e] at hv; cases hv)
        · simp only [store, if_neg hi, if_neg hc]
          have hk : ∀ p, k.slot? = some p → t.array.size ≤ p := fun p hp => by
            rw [hs] at hp
            cases hp
            exact Nat.le_of_not_lt hi
          have hv : k.slot? = some t.array.size → v = .nil := fun hp => by
            rw [hs] at hp
            cases hp
            cases v <;> simp [Value.isNil] at hc ⊢
          exact ⟨normal_hashSet h ht hkey hk hv, hsize, extent_hashSet_le t k v, get_hashSet v hk⟩

end LuaKernel.Table
