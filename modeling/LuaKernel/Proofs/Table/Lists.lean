import LuaKernel.Proofs.Run.Heaps
import LuaKernel.Proofs.Table.Filling

/-!
# Lists in tables

A list is stored at consecutive integers, one value after the other: these are entries with the
integers as their keys (`Table.row`).  From `-2⁵³` to `2⁵³`, different integers are different keys
(`Value.rawEqual_ofInt_iff`), so every value is read back, wherever the entries before and after it
make the table grow, shrink or move entries (`Table.storeAll_row_spec`).  A table without entries
that gets a list from `1` on keeps it in its array part alone (`Table.storeAll_row_of_blank`).

A run counts the integers with a machine word.  Only where the counter overflows, which is said by
`Action.storeFrom_fst`, it does not go through consecutive integers (`Action.storeFrom_of_ok`).
-/

namespace LuaKernel

/-- From `-2⁵³` to `2⁵³`, different integers are different keys. -/
theorem Value.rawEqual_ofInt_iff {a b : Int} (ha : a.natAbs ≤ 2 ^ 53) (hb : b.natAbs ≤ 2 ^ 53) :
    (Value.ofInt a).rawEqual (.ofInt b) = true ↔ a = b := by
  have hone : (Binary64.one : Int) ≠ 0 := by exact_mod_cast Nat.ne_of_gt Binary64.one_pos
  simp only [ofInt, rawEqual, Binary64.equal, Binary64.not_isNaN_ofInt, (Binary64.value_ofInt ha).1,
    (Binary64.value_ofInt hb).1, Bool.not_false, Bool.true_and, decide_eq_true_eq]
  exact Int.mul_eq_mul_right_iff hone

namespace Table

variable {t t' : Table} {start : Int} {vs : List Value}

/-- Values with consecutive integers as their keys. -/
def row (start : Int) (vs : List Value) : List (Value × Value) :=
  vs.mapIdx fun i v => (.ofInt (start + i), v)

theorem row_cons (start : Int) (v : Value) (vs : List Value) :
    row start (v :: vs) = (.ofInt start, v) :: row (start + 1) vs := by
  have hnext : ∀ i : Nat, start + ((i + 1 : Nat) : Int) = start + 1 + i := fun i => by omega
  simp only [row, List.mapIdx_cons, hnext, Int.natCast_zero, Int.add_zero]

/-- Writes keep the metatable. -/
theorem storeAll_metatable {entries : List (Value × Value)} (h : t.storeAll entries = .ok t') :
    t'.metatable = t.metatable := by
  induction entries generalizing t with
  | nil =>
      cases h
      rfl
  | cons e rest ih =>
      rw [storeAll] at h
      split at h
      · next t₁ hset => exact (ih h).trans (rawSet_frame hset).1
      · cases h

theorem mem_row_iff {e : Value × Value} :
    e ∈ row start vs ↔ ∃ (i : Nat) (hi : i < vs.length), (.ofInt (start + i), vs[i]) = e :=
  List.mem_mapIdx

/-- The entries of a list within the bounds are at most one for each key. -/
theorem eq_of_mem_row (hlow : -2 ^ 53 ≤ start) (hhigh : start + vs.length ≤ 2 ^ 53)
    {e e' : Value × Value} (he : e ∈ row start vs) (he' : e' ∈ row start vs) {k : Value}
    (hk : e.1.rawEqual k = true) (hk' : e'.1.rawEqual k = true) : e = e' := by
  obtain ⟨i, hi, rfl⟩ := mem_row_iff.1 he
  obtain ⟨j, hj, rfl⟩ := mem_row_iff.1 he'
  have hkey : (Value.ofInt (start + i)).key? = (Value.ofInt (start + j)).key? :=
    (key?_eq_of_rawEqual (Value.isKey_ofInt _) hk).trans
      (key?_eq_of_rawEqual (Value.isKey_ofInt _) hk').symm
  have hij : start + (i : Int) = start + j := by
    refine (Value.rawEqual_ofInt_iff (by omega) (by omega)).1 ?_
    exact (Value.key?_eq_key?_iff (Value.isKey_ofInt _) (Value.isKey_ofInt _)).1 hkey
  obtain rfl : i = j := by omega
  rfl

theorem isKey_of_mem_row {e : Value × Value} (he : e ∈ row start vs) : e.1.isKey = true := by
  obtain ⟨i, hi, rfl⟩ := mem_row_iff.1 he
  exact Value.isKey_ofInt _

/-- What storing a list does to a normal table: it succeeds, the list is read back, and no other key
reads another value. -/
theorem storeAll_row_spec (h : Normal t) (ht : t.array.size ≤ 2 ^ 53) (hlow : -2 ^ 53 ≤ start)
    (hhigh : start + vs.length ≤ 2 ^ 53) :
    ∃ t', t.storeAll (row start vs) = .ok t' ∧ t'.metatable = t.metatable ∧
      (∀ (i : Nat) (hi : i < vs.length), t'.rawGetInt (start + i) = vs[i]) ∧
      ∀ k, (∀ i < vs.length, (Value.ofInt (start + (i : Nat))).rawEqual k = false) →
        t'.rawGet k = t.rawGet k := by
  obtain ⟨t', hstore, -, -, -, hget, -⟩ := storeAll_spec h ht fun e he => isKey_of_mem_row he
  refine ⟨t', hstore, storeAll_metatable hstore, fun i hi => ?_, fun k hk => ?_⟩
  · have hmem : (Value.ofInt (start + i), vs[i]) ∈ row start vs := mem_row_iff.2 ⟨i, hi, rfl⟩
    have hself : (Value.ofInt (start + i)).rawEqual (.ofInt (start + i)) = true :=
      (Value.key?_eq_key?_iff (Value.isKey_ofInt _) (Value.isKey_ofInt _)).1 rfl
    rw [rawGetInt, hget, readAfter_of_mem hmem hself]
    exact fun e he hek => congrArg Prod.snd (eq_of_mem_row hlow hhigh he hmem hek hself)
  · rw [hget, readAfter_of_forall_not]
    intro e he
    obtain ⟨i, hi, rfl⟩ := mem_row_iff.1 he
    exact hk i hi

/-! ### Tables without entries -/

/-- A normal table that reads nil has no room for entries. -/
theorem Apart.extent_eq_zero (h : Apart t) (ht : t.array.size ≤ 2 ^ 53)
    (hnil : ∀ k, t.rawGet k = .nil) : t.extent = 0 := by
  have harray : t.array.size = 0 := by
    cases hsize : t.array.size with
    | zero => rfl
    | succ n =>
        refine absurd ?_ (h.get_last_ne_nil ht hsize)
        rw [← rawGetInt_succ]
        exact hnil _
  have hhash : t.hash.size = 0 := by
    refine Assoc.size_eq_zero_of_get? fun k => Option.eq_none_iff_forall_ne_some.2 fun v hv => ?_
    obtain ⟨key, hkey⟩ := h.hash_key k v hv
    refine h.get_ne_nil_iff.2 (.inr ⟨v, hv⟩) ?_
    rw [← rawGet_eq_get t hkey]
    exact hnil key
  rw [extent, harray, hhash]

/-- If all entries have a slot in the array part, the hash part has none. -/
theorem Holds.hash_size_eq_zero {entries : List (Value × Value)} (h : t.Holds entries)
    (hall : ∀ e ∈ entries, ∃ i < t.array.size, e.1.key? = some (.ofSlot i)) : t.hash.size = 0 := by
  refine Assoc.size_eq_zero_of_get? fun k => Option.eq_none_iff_forall_ne_some.2 fun v hv => ?_
  obtain ⟨key, hkey⟩ := h.normal.hash_key k v hv
  have hne : t.rawGet key ≠ .nil := by
    rw [rawGet_eq_get t hkey]
    exact h.normal.get_ne_nil_iff.2 (.inr ⟨v, hv⟩)
  obtain ⟨e, he, hek⟩ := (h.exists_entry_or_nil key).resolve_right hne
  obtain ⟨i, hi, hslot⟩ := hall e he
  have hsize : t.array.size < 2 ^ 53 := size_lt_of_extent_lt h.extent_lt
  have hks : k.slot? = some i := by
    have hkeys : some k = some (Key.ofSlot i) := by
      rw [← hkey, ← hslot]
      exact (key?_eq_of_rawEqual (Value.isKey_iff.2 ⟨_, hslot⟩) hek).symm
    rw [Option.some.inj hkeys, Key.slot?_ofSlot (Nat.lt_trans hi hsize)]
  rw [h.normal.hash_absent k i hks hi] at hv
  cases hv

/-- The entries of a list from `1` on are at `1, 2, …, n`, and no further. -/
theorem isGreatest_covers_row (hfew : vs.length < 2 ^ 53) :
    IsGreatest {n | Covers (row 1 vs) n} vs.length := by
  constructor
  · intro i hi
    refine ⟨_, mem_row_iff.2 ⟨i, hi, rfl⟩, ?_⟩
    exact (Value.rawEqual_ofInt_iff (by omega) (by omega)).2 (Int.add_comm 1 i)
  · intro n hn
    refine Nat.le_of_not_lt fun hlt => ?_
    obtain ⟨e, he, hk⟩ := hn _ hlt
    obtain ⟨i, hi, rfl⟩ := mem_row_iff.1 he
    have hend := (Value.rawEqual_ofInt_iff (by omega) (by omega)).1 hk
    omega

/-- A list without nils, stored from `1` on in a table without entries, is the array part, and there
is nothing else. -/
theorem storeAll_row_of_blank (h : Normal t) (ht : t.array.size ≤ 2 ^ 53)
    (hnil : ∀ k, t.rawGet k = .nil) (hfew : vs.length < 2 ^ 53) (hvs : .nil ∉ vs)
    (hset : t.storeAll (row 1 vs) = .ok t') :
    t'.array = vs.toArray ∧ t'.hash.size = 0 ∧ t'.length = vs.length := by
  have hlow : -2 ^ 53 ≤ (1 : Int) := by decide
  have hhigh : 1 + (vs.length : Int) ≤ 2 ^ 53 := by omega
  have hlen : (row 1 vs).length = vs.length := List.length_mapIdx
  have hvalues : ∀ e ∈ row 1 vs, e.2 ≠ .nil := by
    intro e he hnil
    obtain ⟨i, hi, rfl⟩ := mem_row_iff.1 he
    exact hvs (hnil ▸ List.getElem_mem hi)
  obtain ⟨u, hstore, hu⟩ := exists_holds h (h.extent_eq_zero ht hnil) (hlen ▸ hfew)
    (fun e he => isKey_of_mem_row he) hvalues
    fun e he e' he' k => eq_of_mem_row hlow hhigh he he'
  obtain rfl : t' = u := Except.ok.inj (hset.symm.trans hstore)
  have hsize : t'.array.size = vs.length :=
    (hu.isGreatest_size hvalues).unique (isGreatest_covers_row hfew)
  refine ⟨?_, hu.hash_size_eq_zero fun e he => ?_, hu.normal.length_eq.trans hsize⟩
  · refine Array.ext (hsize.trans List.size_toArray.symm) fun i hi _ => ?_
    have hi' : i < vs.length := hsize ▸ hi
    rw [← hu.normal.rawGetInt_of_lt (Nat.le_of_lt (hsize ▸ hfew)) hi, List.getElem_toArray]
    refine hu.reads _ (mem_row_iff.2 ⟨i, hi', rfl⟩) _ ?_
    exact (Value.rawEqual_ofInt_iff (by omega) (by omega)).2 (Int.add_comm 1 i)
  · obtain ⟨i, hi, rfl⟩ := mem_row_iff.1 he
    rw [Int.add_comm 1]
    exact ⟨i, hsize ▸ hi, Value.key?_ofInt_succ i⟩

end Table

/-! ### Lists in the tables of a run -/

namespace Action

/-- Before the greatest word, the next position of a counter is the next integer. -/
theorem toInt_add_one {counter : Int64} (h : counter.toInt ≠ 2 ^ 63 - 1) :
    (counter + 1).toInt = counter.toInt + 1 := by
  have hlow := counter.le_toInt
  have hhigh := counter.toInt_lt
  have hone : (1 : Int64).toInt = 1 := rfl
  rw [Int64.toInt_add, hone]
  exact Int.bmod_eq_of_le (by omega) (by omega)

/-- The greatest word is where a counter overflows. -/
theorem eq_maxValue_iff {counter : Int64} :
    counter = Int64.maxValue ↔ counter.toInt = 2 ^ 63 - 1 := by
  rw [← Int64.toInt_maxValue, Int64.toInt_inj]

theorem advance_of_ne {counter : Int64} {m : Machine}
    (h : ¬ (m.counters = .stops ∧ counter.toInt = 2 ^ 63 - 1)) :
    advance counter m = (.ok (counter + 1), m) :=
  if_neg (by rwa [eq_maxValue_iff])

theorem advance_of_overflow {counter : Int64} {m : Machine} (hm : m.counters = .stops)
    (h : counter.toInt = 2 ^ 63 - 1) : advance counter m = (.error .counterOverflow, m) :=
  if_pos ⟨hm, eq_maxValue_iff.2 h⟩

/-- **A list is stored to its end, unless its counter overflows and stops the machine.**  The
counter goes one past the last value, so a list from the greatest word on overflows even without
values. -/
theorem storeFrom_fst (t : TableId) (counter : Int64) (vs : List Value) (m : Machine) :
    (storeFrom t counter vs m).1 =
      if m.counters = .stops ∧ 2 ^ 63 - 1 ≤ counter.toInt + vs.length then .error .counterOverflow
      else .ok () := by
  have hword := counter.toInt_lt
  induction vs generalizing counter m with
  | nil =>
      by_cases hover : m.counters = .stops ∧ counter.toInt = 2 ^ 63 - 1
      · rw [storeFrom_nil, bind_of_error _ (advance_of_overflow hover.1 hover.2), if_pos]
        exact ⟨hover.1, by simp [hover.2]⟩
      · rw [storeFrom_nil, bind_of_ok _ (advance_of_ne hover), if_neg]
        · rfl
        · rintro ⟨hm, hle⟩
          exact hover ⟨hm, by simp at hle; omega⟩
  | cons v vs ih =>
      rw [List.length_cons, Int.natCast_succ]
      by_cases hover : m.counters = .stops ∧ counter.toInt = 2 ^ 63 - 1
      · rw [storeFrom_cons, bind_of_error _ (advance_of_overflow hover.1 hover.2), if_pos]
        exact ⟨hover.1, by omega⟩
      · obtain ⟨contents, hset⟩ :=
          (m.heap.get t).rawSet_of_isKey v (Value.isKey_ofInt counter.toInt)
        rw [storeFrom_cons, bind_of_ok _ (advance_of_ne hover), bind_of_ok _ (rawSet_of_ok hset),
          ih _ _ (counter + 1).toInt_lt]
        cases hm : m.counters with
        | wraps => simp
        | stops =>
            rw [toInt_add_one fun h => hover ⟨hm, h⟩]
            simp only [true_and, Int.add_assoc, Int.add_comm 1]

/-- The writes that store a list, and what they leave of the heap. -/
theorem storeFrom_of_ok {t : TableId} (counter : Int64) {vs : List Value} (m : Machine)
    {contents : Table} (hfits : counter.toInt + vs.length < 2 ^ 63 - 1)
    (hstore : (m.heap.get t).storeAll (Table.row counter.toInt vs) = .ok contents) :
    ∃ h' : Heap, storeFrom t counter vs m = (.ok (), { m with heap := h' }) ∧
      h'.get t = contents ∧ ∀ u, u ≠ t → h'.get u = m.heap.get u := by
  have hne : counter.toInt ≠ 2 ^ 63 - 1 := by omega
  have hadvance : advance counter m = (.ok (counter + 1), m) :=
    advance_of_ne fun hover => hne hover.2
  induction vs generalizing counter m with
  | nil =>
      cases hstore
      exact ⟨m.heap, bind_of_ok _ hadvance, rfl, fun _ _ => rfl⟩
  | cons v vs ih =>
      rw [List.length_cons, Int.natCast_succ] at hfits
      rw [Table.row_cons, Table.storeAll] at hstore
      split at hstore
      · next t₁ hset =>
          have hnext := toInt_add_one hne
          have hget : (m.heap.set t t₁).get t = t₁ := by rw [m.heap.get_set, if_pos rfl]
          obtain ⟨h', hrest, hcontents, hothers⟩ :=
            ih (counter + 1) { m with heap := m.heap.set t t₁ } (by omega)
              (by rwa [hget, hnext]) (by omega) (advance_of_ne fun hover => by omega)
          refine ⟨h', ?_, hcontents, fun u hu => (hothers u hu).trans ?_⟩
          · rw [storeFrom_cons, bind_of_ok _ hadvance, bind_of_ok _ (rawSet_of_ok hset), hrest]
          · exact (m.heap.get_set t u t₁).trans (if_neg hu)
      · cases hstore

theorem setList_of_not_isTable {v : Value} (hv : v.isTable = false) (start : Int64)
    (vs : List Value) (m : Machine) :
    setList v start vs m = (.error (.error (.ofFault (.expected .table v.kind))), m) := by
  cases v with
  | table t => cases hv
  | nil | boolean _ | number _ | string _ | function _ => rfl

end Action

/-- A list is stored in a table, and everything else is the same. -/
structure Heap.ListStored (h h' : Heap) (t : TableId) (start : Int) (vs : List Value) : Prop where
  values : ∀ (i : Nat) (hi : i < vs.length), (h'.get t).rawGetInt (start + i) = vs[i]
  /-- Keys that are raw-equal to none of the integers read what they did. -/
  keys : ∀ k, (∀ i : Nat, i < vs.length → (Value.ofInt (start + i)).rawEqual k = false) →
    (h'.get t).rawGet k = (h.get t).rawGet k
  metatable : (h'.get t).metatable = (h.get t).metatable
  others : ∀ u, u ≠ t → h'.get u = h.get u

/-- **A list is stored at consecutive integers.**  Let the integers, and the one after them, be from
`-2⁵³` to `2⁵³`.  Then storing a list in a table of a run succeeds, every value is read back at its
integer, nil where it deletes, and nothing else changes: no other key, not the metatable, no other
table, and nothing of the machine.  No function is called, for it does not matter what functions do.
If the table had no entries, the list begins at `1`, and no value is nil, then the list is the array
part, the hash part has no entries, and the length is the length of the list.

What is no table takes no list: this fails, and nothing changes. -/
theorem setList_stores_list (m : Machine) (hg : m.heap.Grown) (start : Int64) (vs : List Value)
    (hlow : -2 ^ 53 ≤ start.toInt) (hhigh : start.toInt + vs.length ≤ 2 ^ 53) :
    (∀ t : TableId, ∃ h' : Heap,
      Action.setList (.table t) start vs m = (.ok (), { m with heap := h' }) ∧
      (∀ E : Engine, Op.perform E (.table t :: vs) (.setList start) m =
        (.ok .none, { m with heap := h' })) ∧
      m.heap.ListStored h' t start.toInt vs ∧
      ((∀ k, (m.heap.get t).rawGet k = .nil) → start = 1 → .nil ∉ vs →
        (h'.get t).array = vs.toArray ∧ (h'.get t).hash.size = 0 ∧
          (h'.get t).length = vs.length)) ∧
    ∀ v : Value, v.isTable = false →
      Action.setList v start vs m = (.error (.error (.ofFault (.expected .table v.kind))), m) ∧
      ∀ E : Engine, Op.perform E (v :: vs) (.setList start) m =
        (.error (.error (.ofFault (.expected .table v.kind))), m) := by
  constructor
  · intro t
    obtain ⟨es, hes⟩ := hg t
    obtain ⟨hN, hsize⟩ := Table.normal_ofHistory es
    rw [← hes] at hN hsize
    obtain ⟨contents, hstore, hmetatable, hvalues, hkeys⟩ :=
      Table.storeAll_row_spec hN hsize hlow hhigh
    -- The counter stays far below the greatest word.
    obtain ⟨h', hact, rfl, hothers⟩ := Action.storeFrom_of_ok start m (by omega) hstore
    replace hact : Action.setList (.table t) start vs m = (.ok (), { m with heap := h' }) := hact
    refine ⟨h', hact, fun E => Action.bind_of_ok _ hact, ⟨hvalues, hkeys, hmetatable, hothers⟩, ?_⟩
    rintro hnil rfl hvs
    have hone : (1 : Int64).toInt = 1 := rfl
    rw [hone] at hstore hhigh
    exact Table.storeAll_row_of_blank hN hsize hnil (by omega) hvs hstore
  · intro v hv
    have hact := Action.setList_of_not_isTable hv start vs m
    exact ⟨hact, fun E => Action.bind_of_error _ hact⟩

/-- A heap whose table `1` has the values of `1` and `2` in its array part, and that of `5` in its
hash part. -/
def Heap.gapped : Heap :=
  ⟨#[Table.empty, Table.ofHistory [.setInt 1 (.string "a"), .setInt 2 (.string "b"),
    .setInt 5 (.string "e")]]⟩

theorem Heap.grown_gapped : Heap.gapped.Grown := by
  rintro ⟨i⟩
  match i with
  | 0 => exact ⟨[], rfl⟩
  | 1 => exact ⟨_, rfl⟩
  | i + 2 => exact ⟨[], rfl⟩

/-- A list from `0` on that deletes the value of `1`, overwrites the one of `2`, and by the values
of `3` and `4` moves the one of `5` to the array part. -/
def bridging : List Value := [.string "z", .nil, .string "B", .string "c", .string "d"]

theorem bridging_stores_list :
    (0 : Int64).toInt + bridging.length ≤ 2 ^ 53 ∧
    ∃ h', Action.setList (.table ⟨1⟩) 0 bridging { heap := Heap.gapped } =
      (.ok (), { heap := h' }) ∧
      Heap.gapped.ListStored h' ⟨1⟩ 0 bridging ∧ (h'.get ⟨1⟩).rawGetInt 1 = .nil ∧
      (h'.get ⟨1⟩).rawGetInt 5 = .string "e" := by
  obtain ⟨h', hact, -, hstored, -⟩ :=
    (setList_stores_list { heap := Heap.gapped } Heap.grown_gapped 0 bridging (by decide)
      (by decide)).1 ⟨1⟩
  refine ⟨by decide, h', hact, hstored, hstored.values 1 (by decide), ?_⟩
  exact (hstored.keys (.ofInt 5) (by decide +kernel)).trans (by decide +kernel)

end LuaKernel
