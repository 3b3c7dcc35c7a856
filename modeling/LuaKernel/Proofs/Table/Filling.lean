import LuaKernel.Proofs.Table.History

/-!
# Filling a table

Values are stored under keys one after the other (`storeAll`).  What a key reads in the end is the
value of the last entry with a raw-equal key, or what it read before (`readAfter`, `storeAll_spec`).
If all entries for a key have one value, this is said by membership (`readAfter_of_mem`), and the
order of the entries drops out.

Values that are not nil leave no holes (`Full.store`).  The array part of a normal table without
holes is settled by what is read from the table (`Full.isGreatest_size`): it takes all the positions
from the first one on that read values.  So two tables that are filled with the same entries, in
whatever order, have the same array part, and as many entries in their hash parts
(`storeAll_order_irrelevant`).
-/

namespace LuaKernel.Table

/-- Stores values under keys, one after the other, up to the first write that fails. -/
def storeAll (t : Table) : List (Value × Value) → Except Fault Table
  | [] => .ok t
  | (key, v) :: rest =>
    match t.rawSet key v with
    | .ok t' => t'.storeAll rest
    | .error f => .error f

/-! ### What a key reads -/

/-- What a key reads after entries were stored one after the other, if it read `old` before: the
value of the last entry for it. -/
def readAfter (entries : List (Value × Value)) (k old : Value) : Value :=
  ((entries.reverse.find? fun e => e.1.rawEqual k).map Prod.snd).getD old

theorem readAfter_cons (key v : Value) (rest : List (Value × Value)) (k old : Value) :
    readAfter ((key, v) :: rest) k old = readAfter rest k (if key.rawEqual k then v else old) := by
  unfold readAfter
  rw [List.reverse_cons, List.find?_append]
  cases rest.reverse.find? fun e => e.1.rawEqual k with
  | some e => rfl
  | none => cases hk : key.rawEqual k <;> simp [hk]

/-- A key that no entry is for reads what it did. -/
theorem readAfter_of_forall_not {entries : List (Value × Value)} {k : Value}
    (h : ∀ e ∈ entries, e.1.rawEqual k = false) (old : Value) : readAfter entries k old = old := by
  have hnone : (entries.reverse.find? fun e => e.1.rawEqual k) = none := by
    rw [List.find?_eq_none]
    intro e he
    simp [h e (List.mem_reverse.1 he)]
  rw [readAfter, hnone]
  rfl

/-- A key reads the value that all entries for it have. -/
theorem readAfter_of_mem {entries : List (Value × Value)} {k : Value} {e : Value × Value}
    (he : e ∈ entries) (hk : e.1.rawEqual k = true)
    (hall : ∀ e' ∈ entries, e'.1.rawEqual k = true → e'.2 = e.2) (old : Value) :
    readAfter entries k old = e.2 := by
  have hsome : (entries.reverse.find? fun e => e.1.rawEqual k).isSome := by
    rw [List.find?_isSome]
    exact ⟨e, List.mem_reverse.2 he, hk⟩
  obtain ⟨e', he'⟩ := Option.isSome_iff_exists.1 hsome
  have hmem : e' ∈ entries := List.mem_reverse.1 (List.mem_of_find?_eq_some he')
  have hlast : e'.1.rawEqual k = true := by simpa using List.find?_some he'
  rw [readAfter, he']
  exact hall e' hmem hlast

/-! ### No holes -/

/-- No nil is kept in either part: the array part has no holes. -/
structure Full (t : Table) : Prop where
  hash_ne_nil : ∀ k v, t.hash.get? k = some v → v ≠ .nil
  nil_not_mem : .nil ∉ t.array

namespace Full

variable {t : Table}

theorem push (h : Full t) (k : Key) {v : Value} (hv : v ≠ .nil) :
    Full { t with array := t.array.push v, hash := t.hash.erase k } where
  hash_ne_nil j w hj := by
    rw [Assoc.get?_erase] at hj
    split at hj
    · cases hj
    · exact h.hash_ne_nil j w hj
  nil_not_mem := by
    rw [Array.mem_push]
    rintro (hmem | hnil)
    · exact h.nil_not_mem hmem
    · exact hv hnil.symm

theorem migrateSteps (h : Full t) (n : Nat) : Full (migrateSteps n t) :=
  migrateSteps_induction (fun _ v hfull hv => hfull.push _ (hfull.hash_ne_nil _ v hv)) n h

theorem hashSet (h : Full t) (k : Key) (v : Value) : Full (t.hashSet k v) where
  hash_ne_nil j w hj := by
    rw [get?_hashSet] at hj
    split at hj
    · split at hj
      · cases hj
      · next hv =>
          cases hj
          exact hv
    · exact h.hash_ne_nil j w hj
  nil_not_mem := by
    rw [array_hashSet]
    exact h.nil_not_mem

/-- To store a value that is not nil makes no hole. -/
theorem store (h : Full t) (k : Key) (slot : Option Nat) {v : Value} (hv : v ≠ .nil) :
    Full (t.store k slot v) := by
  unfold Table.store
  split
  · next i =>
      split
      · refine ⟨h.hash_ne_nil, fun hmem => ?_⟩
        -- Trimming takes values away, and the one that is written is not nil.
        obtain ⟨c, hc⟩ :=
          trimSteps_append (t.array.setIfInBounds i v).size (t.array.setIfInBounds i v)
        have hset : .nil ∈ t.array.setIfInBounds i v := hc ▸ Array.mem_append_left _ hmem
        rcases Array.mem_or_eq_of_mem_setIfInBounds hset with hold | hnew
        · exact h.nil_not_mem hold
        · exact hv hnew.symm
      · split
        · exact (h.push k hv).migrateSteps _
        · exact h.hashSet k v
  · exact h.hashSet k v

theorem rawSet {t' : Table} (h : Full t) {key v : Value} (hv : v ≠ .nil)
    (hset : t.rawSet key v = .ok t') : Full t' := by
  unfold Table.rawSet at hset
  split at hset
  · cases hset
    exact h.store _ _ hv
  · cases hset

end Full

/-! ### One entry after the other -/

/-- What storing entries does to a normal table: all writes succeed, the table stays normal, grows
by at most one for each entry, reads the last entry for every key, and gets no hole if there was
none and no value is nil. -/
theorem storeAll_spec {t : Table} (h : Normal t) (ht : t.array.size ≤ 2 ^ 53)
    {entries : List (Value × Value)} (hkeys : ∀ e ∈ entries, e.1.isKey = true) :
    ∃ t', t.storeAll entries = .ok t' ∧ Normal t' ∧ t'.array.size ≤ 2 ^ 53 ∧
      t'.extent ≤ t.extent + entries.length ∧
      (∀ k, t'.rawGet k = readAfter entries k (t.rawGet k)) ∧
      (Full t → (∀ e ∈ entries, e.2 ≠ .nil) → Full t') := by
  induction entries generalizing t with
  | nil => exact ⟨t, rfl, h, ht, Nat.le_refl _, fun _ => rfl, fun hfull _ => hfull⟩
  | cons e entries ih =>
      obtain ⟨key, v⟩ := e
      have hkey : key.isKey = true := hkeys (key, v) List.mem_cons_self
      obtain ⟨k, hk⟩ := Value.isKey_iff.1 hkey
      obtain ⟨t₁, hset, hN₁, hsize₁, hext₁, -⟩ := rawSet_spec h ht v hk
      obtain ⟨t', hall, hN, hsize, hext, hget, hfull⟩ :=
        ih hN₁ hsize₁ fun e he => hkeys e (List.mem_cons_of_mem _ he)
      refine ⟨t', ?_, hN, hsize, ?_, fun j => ?_, fun hf hv => ?_⟩
      · simp only [storeAll, hset, hall]
      · rw [List.length_cons]
        omega
      · rw [hget, rawGet_rawSet h ht hset, readAfter_cons]
      · exact hfull (hf.rawSet (hv _ List.mem_cons_self) hset)
          fun e he => hv e (List.mem_cons_of_mem _ he)

/-! ### The array part without holes -/

/-- A position of the array part reads its slot. -/
theorem Apart.rawGetInt_of_lt {t : Table} (h : Apart t) (ht : t.array.size ≤ 2 ^ 53) {i : Nat}
    (hi : i < t.array.size) : t.rawGetInt (i + 1) = t.array[i] := by
  have hs : (Key.ofSlot i).slot? = some i := Key.slot?_ofSlot (Nat.lt_of_lt_of_le hi ht)
  rw [rawGetInt_succ, get_of_absent hs (h.hash_absent _ i hs hi), Array.getElem?_eq_getElem hi]
  rfl

namespace Full

variable {t u : Table}

/-- The array part without holes takes all the positions from the first one on that read values. -/
theorem isGreatest_size (hfull : Full t) (h : Normal t) (ht : t.array.size < 2 ^ 53) :
    IsGreatest {n : Nat | ∀ i < n, t.rawGetInt (i + 1) ≠ .nil} t.array.size := by
  constructor
  · intro i hi
    rw [h.rawGetInt_of_lt (Nat.le_of_lt ht) hi]
    exact fun hnil => hfull.nil_not_mem (hnil ▸ Array.getElem_mem hi)
  · intro n hn
    refine Nat.le_of_not_lt fun hlt => hn _ hlt ?_
    rw [rawGetInt_succ]
    exact h.get_next ht

/-- It holds the keys of these positions. -/
theorem inArray_iff (hfull : Full t) (ht : t.array.size ≤ 2 ^ 53) {k : Key} :
    t.InArray k ↔ ∃ i < t.array.size, k = .ofSlot i := by
  constructor
  · rintro ⟨i, v, hs, hv, -⟩
    have hi : i < t.array.size := (Array.getElem?_eq_some_iff.1 hv).1
    exact ⟨i, hi, Key.eq_ofSlot (Nat.lt_of_lt_of_le hi ht) hs⟩
  · rintro ⟨i, hi, rfl⟩
    refine ⟨i, t.array[i], Key.slot?_ofSlot (Nat.lt_of_lt_of_le hi ht),
      Array.getElem?_eq_getElem hi, ?_⟩
    exact fun hnil => hfull.nil_not_mem (hnil ▸ Array.getElem_mem hi)

/-- Two tables that read the same have the same array part. -/
theorem array_eq (hfull : Full t) (h : Normal t) (ht : t.array.size < 2 ^ 53) (hfull' : Full u)
    (h' : Normal u) (hu : u.array.size < 2 ^ 53) (hread : ∀ k, t.rawGet k = u.rawGet k) :
    t.array = u.array := by
  have hint : ∀ i : Nat, t.rawGetInt (i + 1) = u.rawGetInt (i + 1) := fun i => hread _
  have hsize : t.array.size = u.array.size := by
    refine (hfull.isGreatest_size h ht).unique ?_
    simp only [hint]
    exact hfull'.isGreatest_size h' hu
  refine Array.ext hsize fun i hi hi' => ?_
  rw [← h.rawGetInt_of_lt (Nat.le_of_lt ht) hi, ← h'.rawGetInt_of_lt (Nat.le_of_lt hu) hi', hint]

/-- And their hash parts have as many entries. -/
theorem hash_size_eq (hfull : Full t) (h : Normal t) (ht : t.extent < 2 ^ 53) (hfull' : Full u)
    (h' : Normal u) (hu : u.extent < 2 ^ 53) (hread : ∀ k, t.rawGet k = u.rawGet k) :
    t.count = u.count ∧ t.hash.size = u.hash.size := by
  have hlive : t.live = u.live := by
    simp only [live, hread]
  have hcount : t.count = u.count := by
    have hcard := h.encard_live ht
    rw [hlive, h'.encard_live hu] at hcard
    exact (Nat.cast_injective hcard).symm
  have harray : t.array = u.array :=
    hfull.array_eq h (size_lt_of_extent_lt ht) hfull' h' (size_lt_of_extent_lt hu) hread
  refine ⟨hcount, ?_⟩
  unfold count at hcount
  rw [harray] at hcount
  omega

end Full

/-! ### The order of entries -/

theorem key?_eq_of_rawEqual {key k : Value} (hkey : key.isKey = true) (h : key.rawEqual k = true) :
    key.key? = k.key? := by
  cases hk : k.isKey with
  | true => exact (Value.key?_eq_key?_iff hkey hk).2 h
  | false =>
      rw [rawEqual_of_not_isKey hkey hk] at h
      cases h

/-- Entries with distinct keys are at most one for each key. -/
theorem eq_of_rawEqual {entries : List (Value × Value)} (hkeys : ∀ e ∈ entries, e.1.isKey = true)
    (hdistinct : entries.Pairwise fun e e' => e.1.rawEqual e'.1 = false) {e e' : Value × Value}
    (he : e ∈ entries) (he' : e' ∈ entries) {k : Value} (hk : e.1.rawEqual k = true)
    (hk' : e'.1.rawEqual k = true) : e = e' := by
  have hnodup : (entries.map fun e => e.1.key?).Nodup := by
    rw [List.Nodup, List.pairwise_map]
    refine hdistinct.imp_of_mem fun ha hb hne heq => ?_
    rw [(Value.key?_eq_key?_iff (hkeys _ ha) (hkeys _ hb)).1 heq] at hne
    cases hne
  refine List.inj_on_of_nodup_map hnodup he he' ?_
  rw [key?_eq_of_rawEqual (hkeys e he) hk, key?_eq_of_rawEqual (hkeys e' he') hk']

/-- A table with no room for entries reads nil. -/
theorem rawGet_of_extent {t : Table} (ht : t.extent = 0) (k : Value) : t.rawGet k = .nil := by
  obtain ⟨harray, hhash⟩ := Nat.add_eq_zero_iff.1 ht
  rcases Value.key?_eq_none_or_some k with ⟨hk, -⟩ | ⟨j, hj, -⟩
  · exact rawGet_eq_nil t hk
  · rw [rawGet_eq_get t hj, get, Array.eq_empty_of_size_eq_zero harray, hashGet,
      Assoc.get?_of_size_eq_zero hhash]
    cases j.slot? <;> rfl

theorem full_of_extent {t : Table} (ht : t.extent = 0) : Full t := by
  obtain ⟨harray, hhash⟩ := Nat.add_eq_zero_iff.1 ht
  refine ⟨fun k v hv => ?_, ?_⟩
  · rw [Assoc.get?_of_size_eq_zero hhash] at hv
    cases hv
  · rw [Array.eq_empty_of_size_eq_zero harray]
    exact Array.not_mem_empty _

/-- A table holds some entries and no others, without holes. -/
structure Holds (t : Table) (entries : List (Value × Value)) : Prop where
  normal : Normal t
  full : Full t
  extent_lt : t.extent < 2 ^ 53
  reads : ∀ e ∈ entries, ∀ k, e.1.rawEqual k = true → t.rawGet k = e.2
  reads_nil : ∀ k, (∀ e ∈ entries, e.1.rawEqual k = false) → t.rawGet k = .nil

/-- Entries that are at most one for each key, and not nil, can be stored in a table without
entries, and the table holds them. -/
theorem exists_holds {t : Table} (h : Normal t) (ht : t.extent = 0) {entries : List (Value × Value)}
    (hfew : entries.length < 2 ^ 53) (hkeys : ∀ e ∈ entries, e.1.isKey = true)
    (hvalues : ∀ e ∈ entries, e.2 ≠ .nil)
    (hone : ∀ e ∈ entries, ∀ e' ∈ entries, ∀ k, e.1.rawEqual k = true → e'.1.rawEqual k = true →
      e = e') : ∃ t', t.storeAll entries = .ok t' ∧ t'.Holds entries := by
  have hsize : t.array.size ≤ 2 ^ 53 := Nat.le_of_lt (size_lt_of_extent_lt (by omega))
  obtain ⟨t', hstore, hN, -, hext, hget, hfull⟩ := storeAll_spec h hsize hkeys
  refine ⟨t', hstore, hN, hfull (full_of_extent ht) hvalues, by omega, fun e he k hk => ?_,
    fun k hk => ?_⟩
  · rw [hget, readAfter_of_mem he hk]
    exact fun e' he' hk' => congrArg Prod.snd (hone e' he' e he k hk' hk)
  · rw [hget, readAfter_of_forall_not hk, rawGet_of_extent ht]

/-- The positions `1, 2, …, n` are all among the keys of some entries. -/
def Covers (entries : List (Value × Value)) (n : Nat) : Prop :=
  ∀ i < n, ∃ e ∈ entries, e.1.rawEqual (.ofInt (i + 1)) = true

namespace Holds

variable {t t' : Table} {entries entries' : List (Value × Value)}

theorem perm (h : t.Holds entries) (hperm : entries.Perm entries') : t.Holds entries' :=
  ⟨h.normal, h.full, h.extent_lt, fun e he => h.reads e (hperm.mem_iff.2 he),
    fun k hk => h.reads_nil k fun e he => hk e (hperm.mem_iff.1 he)⟩

/-- A key has an entry, or reads nil. -/
theorem exists_entry_or_nil (h : t.Holds entries) (k : Value) :
    (∃ e ∈ entries, e.1.rawEqual k = true) ∨ t.rawGet k = .nil := by
  by_cases hk : ∃ e ∈ entries, e.1.rawEqual k = true
  · exact .inl hk
  · refine .inr (h.reads_nil k fun e he => ?_)
    rw [← Bool.not_eq_true]
    exact fun hek => hk ⟨e, he, hek⟩

/-- Tables that hold the same entries read the same. -/
theorem rawGet_eq (h : t.Holds entries) (h' : t'.Holds entries) (k : Value) :
    t.rawGet k = t'.rawGet k := by
  rcases h.exists_entry_or_nil k with ⟨e, he, hk⟩ | hnil
  · rw [h.reads e he k hk, h'.reads e he k hk]
  · rcases h'.exists_entry_or_nil k with ⟨e, he, hk⟩ | hnil'
    · rw [h.reads e he k hk, h'.reads e he k hk]
    · rw [hnil, hnil']

/-- The array part is as long as the positions that are all among the keys. -/
theorem isGreatest_size (h : t.Holds entries) (hvalues : ∀ e ∈ entries, e.2 ≠ .nil) :
    IsGreatest {n | Covers entries n} t.array.size := by
  have hcovers : ∀ n, Covers entries n ↔ ∀ i < n, t.rawGetInt (i + 1) ≠ .nil := by
    intro n
    refine forall₂_congr fun i _ => ⟨?_, fun hne => ?_⟩
    · rintro ⟨e, he, hk⟩
      rw [rawGetInt, h.reads e he _ hk]
      exact hvalues e he
    · exact (h.exists_entry_or_nil _).resolve_right hne
  simp only [hcovers]
  exact h.full.isGreatest_size h.normal (size_lt_of_extent_lt h.extent_lt)

end Holds

/-- **The order in which a table is filled does not matter.**  Let there be fewer than `2⁵³`
entries, with keys of which no two are raw-equal, and with values that are not nil.  In whatever
order they are stored in a table without entries, all writes succeed, and every key reads the value
of its entry, and nil if it has none.  The numbers of entries and the lengths are the same, and so
are the array parts and the sizes of the hash parts.  The array part holds the keys `1, 2, …, n`,
for the greatest `n` such that all of these are keys of entries. -/
theorem storeAll_order_irrelevant (entries entries' : List (Value × Value))
    (hperm : entries.Perm entries') (hfew : entries.length < 2 ^ 53)
    (hkeys : ∀ e ∈ entries, e.1.isKey = true) (hvalues : ∀ e ∈ entries, e.2 ≠ .nil)
    (hdistinct : entries.Pairwise fun e e' => e.1.rawEqual e'.1 = false) :
    ∃ t t', empty.storeAll entries = .ok t ∧ empty.storeAll entries' = .ok t' ∧
      (∀ k, t.rawGet k = t'.rawGet k) ∧
      (∀ e ∈ entries, ∀ k, e.1.rawEqual k = true → t.rawGet k = e.2) ∧
      (∀ k, (∀ e ∈ entries, e.1.rawEqual k = false) → t.rawGet k = .nil) ∧
      t.count = t'.count ∧ t.length = t'.length ∧ t.array = t'.array ∧ t.hash.size = t'.hash.size ∧
      IsGreatest {n | Covers entries n} t.array.size ∧
      ∀ k, t.InArray k ↔ ∃ i < t.array.size, k = .ofSlot i := by
  have hone : ∀ e ∈ entries, ∀ e' ∈ entries, ∀ k, e.1.rawEqual k = true → e'.1.rawEqual k = true →
      e = e' := fun e he e' he' k => eq_of_rawEqual hkeys hdistinct he he'
  have hmem : ∀ {e}, e ∈ entries' → e ∈ entries := hperm.mem_iff.2
  obtain ⟨t, hstore, h⟩ := exists_holds normal_empty rfl hfew hkeys hvalues hone
  obtain ⟨t', hstore', h'⟩ := exists_holds normal_empty rfl (hperm.length_eq ▸ hfew)
    (fun e he => hkeys e (hmem he)) (fun e he => hvalues e (hmem he))
    fun e he e' he' => hone e (hmem he) e' (hmem he')
  have hsize := size_lt_of_extent_lt h.extent_lt
  have hsize' := size_lt_of_extent_lt h'.extent_lt
  have hread := h.rawGet_eq (h'.perm hperm.symm)
  have harray := h.full.array_eq h.normal hsize h'.full h'.normal hsize' hread
  obtain ⟨hcount, hhash⟩ :=
    h.full.hash_size_eq h.normal h.extent_lt h'.full h'.normal h'.extent_lt hread
  refine ⟨t, t', hstore, hstore', hread, h.reads, h.reads_nil, hcount, ?_, harray, hhash,
    h.isGreatest_size hvalues, fun k => h.full.inArray_iff (Nat.le_of_lt hsize)⟩
  rw [h.normal.length_eq, h'.normal.length_eq, harray]

/-- Five entries, of which `3` and `2` go to the hash part before `1` is there. -/
def scattered : List (Value × Value) :=
  [(.ofInt 3, .string "c"), (.string "x", .boolean true), (.ofInt 2, .string "b"),
    (.ofInt 1, .string "a"), (.ofInt 5, .string "e")]

/-- In the other order, `1`, `2` and `3` go to the array part at once; the table is the same. -/
theorem scattered_order_irrelevant :
    scattered.length < 2 ^ 53 ∧
    ∃ t t', empty.storeAll scattered = .ok t ∧ empty.storeAll scattered.reverse = .ok t' ∧
      t.array = t'.array ∧ t.hash.size = t'.hash.size ∧ t.array.size = 3 := by
  obtain ⟨t, t', hstore, hstore', -, -, -, -, -, harray, hhash, -, -⟩ :=
    storeAll_order_irrelevant scattered scattered.reverse scattered.reverse_perm.symm (by decide)
      (by decide +kernel) (by decide +kernel) (by decide +kernel)
  refine ⟨by decide, t, t', hstore, hstore', harray, hhash, ?_⟩
  have hthree : (empty.storeAll scattered).toOption.map (·.array.size) = some 3 := by decide +kernel
  rw [hstore] at hthree
  exact Option.some.inj hthree

end LuaKernel.Table
