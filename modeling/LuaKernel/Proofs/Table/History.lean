import LuaKernel.Machine
import LuaKernel.Proofs.Table.Representation
import Mathlib.Data.List.Induction
import Mathlib.Data.Set.Card

/-!
# Tables after a history of changes

A table that changes have led to is normal (`normal_ofHistory`), and reads as a finite map.

What one change does is said once, in `edit_spec`: the table stays normal, and what a key reads is
the value that the change stores there, or what it read before (`Edit.stored?`).  By induction over
the history, every key reads the value that was stored there last (`lastStored`), wherever it has
been moved in between (`ofHistory_reads_lastStored`).

The second main result, `ofHistory_representation`, draws the consequences of the invariant: a key
with a value stands in one part only, the entries are as many as the keys with a value, and the
length is a border.
-/

namespace LuaKernel.Table

/-! ### What a change stores -/

/-- The value that a change stores under a key.  A write stores under all keys that are raw-equal to
its own, unless its own is nil or a NaN: then it stores nothing. -/
def Edit.stored? (k : Value) : Edit → Option Value
  | .set key v => if key.isKey && key.rawEqual k then some v else none
  | .setInt i v => if (Value.ofInt i).rawEqual k then some v else none
  | .setMetatable _ => none

/-- The value that the last write to a key has stored; nil if there was none. -/
def lastStored (es : List Edit) (k : Value) : Value :=
  (es.reverse.findSome? (Edit.stored? k)).getD .nil

theorem lastStored_append (es : List Edit) (e : Edit) (k : Value) :
    lastStored (es ++ [e]) k = (e.stored? k).getD (lastStored es k) := by
  unfold lastStored
  rw [List.reverse_append, List.reverse_singleton, List.singleton_append, List.findSome?_cons]
  cases e.stored? k <;> rfl

theorem ofHistory_append (es : List Edit) (e : Edit) :
    ofHistory (es ++ [e]) = (ofHistory es).edit e := by
  rw [ofHistory, List.foldl_append]
  rfl

/-- A key is not raw-equal to what is none. -/
theorem rawEqual_of_not_isKey {key k : Value} (hkey : key.isKey = true) (hk : k.isKey = false) :
    key.rawEqual k = false := by
  cases k with
  | nil =>
      cases key with
      | nil => cases hkey
      | boolean _ | number _ | string _ | table _ | function _ => rfl
  | number x =>
      have hx : x.isNaN = true := by simpa [Value.isKey] using hk
      cases key <;> simp [Value.rawEqual, Binary64.equal, hx]
  | boolean _ | string _ | table _ | function _ => cases hk

/-- An integer is stored under as the number nearest to it. -/
theorem stored?_setInt (k : Value) (i : Int) (v : Value) :
    Edit.stored? k (.setInt i v) = Edit.stored? k (.set (.ofInt i) v) := by
  simp only [Edit.stored?, Value.isKey_ofInt, Bool.true_and]

/-! ### One change -/

/-- A write under a key succeeds, and does what it says. -/
theorem rawSet_spec {t : Table} (h : Normal t) (ht : t.array.size ≤ 2 ^ 53) {key : Value} {k : Key}
    (v : Value) (hk : key.key? = some k) :
    ∃ t', t.rawSet key v = .ok t' ∧ Normal t' ∧ t'.array.size ≤ 2 ^ 53 ∧ t'.extent ≤ t.extent + 1 ∧
      ∀ j, t'.get j = if j = k then v else t.get j := by
  refine ⟨t.store k k.slot? v, ?_, store_spec h ht v ⟨key, hk⟩⟩
  rw [rawSet, hk, Value.slot?_eq_of_key? hk]

/-- A write under a key succeeds, on every table. -/
theorem rawSet_of_isKey (t : Table) {key : Value} (v : Value) (hk : key.isKey = true) :
    ∃ t', t.rawSet key v = .ok t' := by
  obtain ⟨k, hkey⟩ := Value.isKey_iff.1 hk
  exact ⟨_, by rw [rawSet, hkey]⟩

/-- A write under what is no key fails. -/
theorem rawSet_of_not_isKey (t : Table) {key : Value} (v : Value) (hk : key.isKey = false) :
    ∃ f, t.rawSet key v = .error f := by
  rw [rawSet, Value.key?_eq_none_iff.2 hk]
  exact ⟨_, rfl⟩

/-- A write under a key changes what the keys read that are raw-equal to it, and no others. -/
theorem rawGet_rawSet {t t' : Table} (h : Normal t) (ht : t.array.size ≤ 2 ^ 53) {key v : Value}
    (hset : t.rawSet key v = .ok t') (k : Value) :
    t'.rawGet k = if key.rawEqual k then v else t.rawGet k := by
  rcases Value.key?_eq_none_or_some key with ⟨-, hkey⟩ | ⟨j, hj, hkey⟩
  · obtain ⟨f, hf⟩ := rawSet_of_not_isKey t v hkey
    cases hset.symm.trans hf
  · obtain ⟨t₁, hset₁, -, -, -, hget⟩ := rawSet_spec h ht v hj
    cases hset.symm.trans hset₁
    rcases Value.key?_eq_none_or_some k with ⟨hk, hk'⟩ | ⟨i, hi, hk'⟩
    · rw [rawGet_eq_nil t' hk, rawGet_eq_nil t hk, rawEqual_of_not_isKey hkey hk']
      rfl
    · have hiff : i = j ↔ key.rawEqual k = true := by
        rw [← Value.key?_eq_key?_iff hkey hk', hj, hi, Option.some.injEq, eq_comm]
      simp only [rawGet_eq_get t' hi, rawGet_eq_get t hi, hget, hiff]

theorem edit_set_spec {t : Table} (h : Normal t) (ht : t.array.size ≤ 2 ^ 53) (key v : Value) :
    Normal (t.edit (.set key v)) ∧ (t.edit (.set key v)).array.size ≤ 2 ^ 53 ∧
      (t.edit (.set key v)).extent ≤ t.extent + 1 ∧
      ∀ k, (t.edit (.set key v)).rawGet k = (Edit.stored? k (.set key v)).getD (t.rawGet k) := by
  rcases Value.key?_eq_none_or_some key with ⟨-, hkey⟩ | ⟨j, hj, hkey⟩
  · obtain ⟨f, hf⟩ := rawSet_of_not_isKey t v hkey
    have he : t.edit (.set key v) = t := by simp only [edit, edit?, hf]
    rw [he]
    refine ⟨h, ht, Nat.le_succ _, fun k => ?_⟩
    simp [Edit.stored?, hkey]
  · obtain ⟨t', hset, hN, hle, hext, -⟩ := rawSet_spec h ht v hj
    have he : t.edit (.set key v) = t' := by simp only [edit, edit?, hset]
    rw [he]
    refine ⟨hN, hle, hext, fun k => ?_⟩
    rw [rawGet_rawSet h ht hset]
    simp only [Edit.stored?, hkey, Bool.true_and]
    split <;> rfl

/-- What a change does to a normal table. -/
theorem edit_spec {t : Table} (h : Normal t) (ht : t.array.size ≤ 2 ^ 53) (e : Edit) :
    Normal (t.edit e) ∧ (t.edit e).array.size ≤ 2 ^ 53 ∧ (t.edit e).extent ≤ t.extent + 1 ∧
      ∀ k, (t.edit e).rawGet k = (e.stored? k).getD (t.rawGet k) := by
  cases e with
  | set key v => exact edit_set_spec h ht key v
  | setInt i v =>
      simp only [stored?_setInt]
      exact edit_set_spec h ht (.ofInt i) v
  | setMetatable m =>
      exact ⟨⟨⟨h.back_ne_nil, h.hash_ne_nil, h.hash_absent, h.hash_key⟩, h.next_absent⟩, ht,
        Nat.le_succ _, fun k => rfl⟩

/-! ### A whole history -/

/-- A table is normal after any number of changes: its array part never has more than
`2⁵³` slots. -/
theorem normal_ofHistory (es : List Edit) :
    Normal (ofHistory es) ∧ (ofHistory es).array.size ≤ 2 ^ 53 := by
  induction es using List.reverseRecOn with
  | nil => exact ⟨normal_empty, Nat.zero_le _⟩
  | append_singleton es e ih =>
      obtain ⟨hN, hsize, -⟩ := edit_spec ih.1 ih.2 e
      rw [ofHistory_append]
      exact ⟨hN, hsize⟩

/-- A table after fewer than `2⁵³` changes is normal, has at most as many entries as there were
changes, and reads what was stored last. -/
theorem ofHistory_spec {es : List Edit} (hes : es.length < 2 ^ 53) :
    Normal (ofHistory es) ∧ (ofHistory es).extent ≤ es.length ∧
      ∀ k, (ofHistory es).rawGet k = lastStored es k := by
  -- From the end of the history: the number of changes so far bounds the extent, which leaves room
  -- for the entry of the last one.
  induction es using List.reverseRecOn with
  | nil =>
      refine ⟨normal_empty, Nat.le_refl _, fun k => ?_⟩
      rcases Value.key?_eq_none_or_some k with ⟨hk, -⟩ | ⟨j, hj, -⟩
      · exact rawGet_eq_nil _ hk
      · rw [rawGet_eq_get _ hj]
        cases hs : j.slot? <;> simp [get, hs, ofHistory, empty, hashGet, lastStored]
  | append_singleton es e ih =>
      rw [List.length_append, List.length_singleton] at hes
      obtain ⟨hN, hext, hget⟩ := ih (Nat.lt_of_succ_lt hes)
      have hsize : (ofHistory es).array.size < 2 ^ 53 := size_lt_of_extent_lt (by omega)
      obtain ⟨hN', -, hext', hget'⟩ := edit_spec hN (Nat.le_of_lt hsize) e
      rw [ofHistory_append]
      refine ⟨hN', ?_, fun k => ?_⟩
      · rw [List.length_append, List.length_singleton]
        omega
      · rw [hget', hget, lastStored_append]

theorem rawSet_action_of_not_isKey {key : Value} (hk : key.isKey = false) (t : TableId) (v : Value)
    (m : Machine) : ∃ e, Action.rawSet t key v m = (.error e, m) := by
  obtain ⟨f, hf⟩ := rawSet_of_not_isKey (m.heap.get t) v hk
  refine ⟨.error (.ofFault f), ?_⟩
  have ht : Action.table t m = (.ok (m.heap.get t), m) := rfl
  unfold Action.rawSet
  rw [Action.bind_of_ok _ ht]
  refine Action.bind_of_error _ ?_
  rw [hf]
  rfl

/-- **A table is a finite map.**  After fewer than `2⁵³` changes to a table without entries, every
key reads the value of the last write to a raw-equal key, and nil if there was none.  Nil and the
NaNs read nil, and writes under them are the ones that fail; such a write leaves the table, and the
state of a run, as they were. -/
theorem ofHistory_reads_lastStored (es : List Edit) (hes : es.length < 2 ^ 53) :
    (∀ k, (ofHistory es).rawGet k = lastStored es k) ∧
    (∀ k, k.isKey = false → (ofHistory es).rawGet k = .nil) ∧
    (∀ i, (ofHistory es).rawGetInt i = (ofHistory es).rawGet (.ofInt i)) ∧
    (∀ s, (ofHistory es).rawGetString s = (ofHistory es).rawGet (.string s)) ∧
    (∀ k v, k.isKey = true → ∃ t, (ofHistory es).rawSet k v = .ok t) ∧
    (∀ k v, k.isKey = false → (∃ f, (ofHistory es).rawSet k v = .error f) ∧
      (ofHistory es).edit (.set k v) = ofHistory es ∧
      ∀ t m, ∃ e, Action.rawSet t k v m = (.error e, m)) := by
  obtain ⟨-, -, hget⟩ := ofHistory_spec hes
  refine ⟨hget, fun k hk => rawGet_eq_nil _ (Value.key?_eq_none_iff.2 hk), fun i => rfl,
    fun s => rfl, fun k v hk => rawSet_of_isKey _ v hk, fun k v hk => ?_⟩
  obtain ⟨f, hf⟩ := rawSet_of_not_isKey (ofHistory es) v hk
  exact ⟨⟨f, hf⟩, by simp only [edit, edit?, hf], fun t m => rawSet_action_of_not_isKey hk t v m⟩

/-- A history that puts `3` and `2` into the hash part, moves them by an append at `1`, fails, and
deletes `3`. -/
def migrating : List Edit :=
  [.setInt 3 (.string "c"), .setInt 2 (.string "b"), .set (.ofInt 0) (.string "z"),
    .setInt 1 (.string "a"), .set .nil (.string "x"), .setInt 3 .nil]

/-- A key that was moved reads its value, and negative zero reads what zero does. -/
theorem migrating_reads_lastStored :
    migrating.length < 2 ^ 53 ∧ (ofHistory migrating).rawGet (.ofInt 2) = .string "b" ∧
      (ofHistory migrating).rawGet (.number (.ofIndex true 0)) = .string "z" :=
  ⟨by decide,
    ((ofHistory_reads_lastStored migrating (by decide)).1 _).trans (by decide +kernel),
    ((ofHistory_reads_lastStored migrating (by decide)).1 _).trans (by decide +kernel)⟩

/-! ### Where a key with a value stands -/

/-- A key has a value in its slot of the array part. -/
def InArray (t : Table) (k : Key) : Prop :=
  ∃ i v, k.slot? = some i ∧ t.array[i]? = some v ∧ v ≠ .nil

/-- A key has an entry in the hash part. -/
def InHash (t : Table) (k : Key) : Prop := ∃ v, t.hash.get? k = some v

/-- The keys that read a value. -/
def live (t : Table) : Set Key := {k | ∃ v : Value, v.key? = some k ∧ t.rawGet v ≠ .nil}

/-- No key stands in both parts. -/
theorem Apart.not_inHash {t : Table} (h : Apart t) {k : Key} (ha : t.InArray k) : ¬ t.InHash k := by
  rintro ⟨w, hw⟩
  obtain ⟨i, v, hi, hv, -⟩ := ha
  have hlt : i < t.array.size := (Array.getElem?_eq_some_iff.1 hv).1
  rw [h.hash_absent k i hi hlt] at hw
  cases hw

/-- A key reads a value when it stands in one of the parts. -/
theorem Apart.get_ne_nil_iff {t : Table} (h : Apart t) {k : Key} :
    t.get k ≠ .nil ↔ t.InArray k ∨ t.InHash k := by
  have hhash : t.hashGet k ≠ .nil ↔ t.InHash k := by
    unfold hashGet InHash
    cases hv : t.hash.get? k with
    | none => simp
    | some v => simpa using h.hash_ne_nil k v hv
  cases hs : k.slot? with
  | none =>
      rw [get_of_slot_none hs, hhash]
      refine ⟨.inr, fun hk => hk.resolve_left ?_⟩
      rintro ⟨i, v, hi, -, -⟩
      rw [hs] at hi
      cases hi
  | some i =>
      by_cases hi : i < t.array.size
      · have ha := h.hash_absent k i hs hi
        rw [get_of_absent hs ha, Array.getElem?_eq_getElem hi, Option.getD_some]
        constructor
        · intro hv
          exact .inl ⟨i, _, hs, Array.getElem?_eq_getElem hi, hv⟩
        · rintro (⟨p, v, hp, hv, hne⟩ | ⟨v, hv⟩)
          · rw [hs] at hp
            cases hp
            rw [Array.getElem?_eq_getElem hi] at hv
            cases hv
            exact hne
          · rw [ha] at hv
            cases hv
      · rw [get_of_size_le hs (Nat.le_of_not_lt hi), hhash]
        refine ⟨.inr, fun hk => hk.resolve_left ?_⟩
        rintro ⟨p, v, hp, hv, -⟩
        rw [hs] at hp
        cases hp
        exact hi (Array.getElem?_eq_some_iff.1 hv).1

theorem Apart.mem_live_iff {t : Table} (h : Apart t) (ht : t.extent < 2 ^ 53) {k : Key} :
    k ∈ t.live ↔ t.InArray k ∨ t.InHash k := by
  constructor
  · rintro ⟨v, hv, hne⟩
    rw [rawGet_eq_get t hv] at hne
    exact h.get_ne_nil_iff.1 hne
  · intro hk
    have hkey : ∃ v : Value, v.key? = some k := by
      rcases hk with ⟨i, v, hi, hv, -⟩ | ⟨v, hv⟩
      · have hlt : i < t.array.size := (Array.getElem?_eq_some_iff.1 hv).1
        have hlt' : i < 2 ^ 53 := Nat.lt_trans hlt (size_lt_of_extent_lt ht)
        exact ⟨_, (Value.key?_ofInt_succ i).trans (congrArg some (Key.eq_ofSlot hlt' hi).symm)⟩
      · exact h.hash_key k v hv
    obtain ⟨v, hv⟩ := hkey
    exact ⟨v, hv, by rw [rawGet_eq_get t hv]; exact h.get_ne_nil_iff.2 hk⟩

/-! ### Counting -/

theorem encard_inHash (t : Table) : {k | t.InHash k}.encard = t.hash.size := by
  have hset : {k | t.InHash k} = (t.hash.keys.toFinset : Set Key) := by
    ext k
    simp [InHash, Assoc.mem_keys_iff]
  have hnodup : t.hash.keys.Nodup := t.hash.nodup
  have hlen : t.hash.keys.length = t.hash.size := List.length_map _
  rw [hset, Set.encard_coe_eq_coe_finsetCard, List.toFinset_card_of_nodup hnodup, hlen]

/-- The positions of an array at which a value stands that is not nil. -/
def filled (a : Array Value) : List Nat :=
  (List.range a.size).filter fun i => !(a[i]?.getD .nil).isNil

theorem mem_filled_iff {a : Array Value} {i : Nat} :
    i ∈ filled a ↔ ∃ v, a[i]? = some v ∧ v ≠ .nil := by
  have hnil : ∀ v : Value, (!v.isNil) = true ↔ v ≠ .nil := fun v => by
    cases v <;> simp [Value.isNil]
  rw [filled, List.mem_filter, List.mem_range, hnil]
  by_cases hi : i < a.size
  · simp [hi]
  · simp [hi]

theorem length_filled (a : Array Value) : (filled a).length = a.countP (fun v => !v.isNil) := by
  have hlist : a.toList = (List.range a.size).map fun i => a[i]?.getD .nil := by
    apply List.ext_getElem
    · simp
    · intro i hi _
      have hi' : i < a.size := by simpa using hi
      simp [hi']
  rw [← Array.countP_toList, hlist, List.countP_map, List.countP_eq_length_filter]
  rfl

theorem encard_inArray {t : Table} (ht : t.extent < 2 ^ 53) :
    {k | t.InArray k}.encard = t.array.countP (fun v => !v.isNil) := by
  have hlt : ∀ i ∈ filled t.array, i < 2 ^ 53 := by
    intro i hi
    have hi' : i < t.array.size := List.mem_range.1 (List.mem_of_mem_filter hi)
    exact Nat.lt_trans hi' (size_lt_of_extent_lt ht)
  have hset : {k | t.InArray k} = (((filled t.array).map Key.ofSlot).toFinset : Set Key) := by
    ext k
    simp only [Set.mem_ofPred_eq, List.coe_toFinset, List.mem_map]
    constructor
    · rintro ⟨i, v, hi, hv⟩
      have hmem : i ∈ filled t.array := mem_filled_iff.2 ⟨v, hv⟩
      exact ⟨i, hmem, (Key.eq_ofSlot (hlt i hmem) hi).symm⟩
    · rintro ⟨i, hmem, rfl⟩
      obtain ⟨v, hv⟩ := mem_filled_iff.1 hmem
      exact ⟨i, v, Key.slot?_ofSlot (hlt i hmem), hv⟩
  have hnodup : ((filled t.array).map Key.ofSlot).Nodup := by
    refine List.Nodup.map_on (fun i hi j hj hij => ?_) (List.nodup_range.filter _)
    have hs := Key.slot?_ofSlot (hlt i hi)
    rw [hij, Key.slot?_ofSlot (hlt j hj)] at hs
    exact (Option.some.inj hs).symm
  rw [hset, Set.encard_coe_eq_coe_finsetCard, List.toFinset_card_of_nodup hnodup, List.length_map,
    length_filled]

/-- The entries are as many as the keys that read a value. -/
theorem Apart.encard_live {t : Table} (h : Apart t) (ht : t.extent < 2 ^ 53) :
    t.live.encard = t.count := by
  have hset : t.live = {k | t.InArray k} ∪ {k | t.InHash k} := by
    ext k
    exact h.mem_live_iff ht
  have hdisj : Disjoint {k | t.InArray k} {k | t.InHash k} :=
    Set.disjoint_left.2 fun k ha => h.not_inHash ha
  rw [hset, Set.encard_union_eq hdisj, encard_inArray ht, encard_inHash, count]
  rfl

/-! ### The length -/

/-- An array part that does not end in nil is not searched for its length. -/
theorem Apart.length_eq {t : Table} (h : Apart t) : t.length = t.array.size := by
  unfold length
  cases hb : t.array.back? with
  | none => rw [Array.back?_eq_none_iff.1 hb]; rfl
  | some v =>
      have hv : v.isNil = false := by
        cases v with
        | nil => exact absurd hb h.back_ne_nil
        | boolean _ | number _ | string _ | table _ | function _ => rfl
      simp [hv]

theorem rawGetInt_succ (t : Table) (i : Nat) : t.rawGetInt (i + 1) = t.get (.ofSlot i) :=
  rawGet_eq_get t (Value.key?_ofInt_succ i)

/-- The last slot of the array part has a value. -/
theorem Apart.get_last_ne_nil {t : Table} (h : Apart t) (ht : t.array.size ≤ 2 ^ 53) {n : Nat}
    (hn : t.array.size = n + 1) : t.get (.ofSlot n) ≠ .nil := by
  have hs : (Key.ofSlot n).slot? = some n := Key.slot?_ofSlot (by omega)
  have ha := h.hash_absent (.ofSlot n) n hs (by omega)
  have hb : t.array[n]? = t.array.back? := by
    rw [Array.back?_eq_getElem?, hn]
    rfl
  rw [get_of_absent hs ha, hb]
  cases hv : t.array.back? with
  | none =>
      have := Array.back?_eq_none_iff.1 hv
      simp [this] at hn
  | some v => exact fun e => h.back_ne_nil (hv.trans (congrArg some e))

/-- The slot after the array part has no value. -/
theorem Normal.get_next {t : Table} (h : Normal t) (ht : t.array.size < 2 ^ 53) :
    t.get (.ofSlot t.array.size) = .nil := by
  rw [get_of_absent (Key.slot?_ofSlot ht) h.next_absent, Array.getElem?_eq_none (Nat.le_refl _)]
  rfl

/-- The length is a border: there is a value at it, unless it is zero, and none after it. -/
theorem Normal.border {t : Table} (h : Normal t) (ht : t.extent < 2 ^ 53) :
    (t.length = 0 ∨ t.rawGetInt t.length ≠ .nil) ∧ t.rawGetInt (t.length + 1) = .nil := by
  have hsize := size_lt_of_extent_lt ht
  rw [h.length_eq]
  refine ⟨?_, ?_⟩
  · cases hn : t.array.size with
    | zero => exact .inl rfl
    | succ n =>
        right
        push_cast
        rw [rawGetInt_succ]
        exact h.get_last_ne_nil (Nat.le_of_lt hsize) hn
  · rw [rawGetInt_succ]
    exact h.get_next hsize

/-- **The representation of a table.**  After fewer than `2⁵³` changes to a table without entries,
the array part is empty or ends in a value, the hash part holds no nil, and it holds no key of
`1, 2, …, n + 1` for an array part of `n` slots.  So a key that reads a value stands in one part
alone, there are as many entries as such keys, the length is found without a search, and it is a
border. -/
theorem ofHistory_representation (es : List Edit) (hes : es.length < 2 ^ 53) :
    (ofHistory es).array.back? ≠ some .nil ∧
    (∀ k v, (ofHistory es).hash.get? k = some v → v ≠ .nil) ∧
    (∀ n : Nat, 1 ≤ n → n ≤ (ofHistory es).array.size + 1 →
      (ofHistory es).hash.get? (.ofNumber (.ofNat n)) = none) ∧
    (∀ k ∈ (ofHistory es).live, Xor ((ofHistory es).InArray k) ((ofHistory es).InHash k)) ∧
    (ofHistory es).live.encard = (ofHistory es).count ∧
    (ofHistory es).length = (ofHistory es).array.size ∧
    ((ofHistory es).length = 0 ∨ (ofHistory es).rawGetInt (ofHistory es).length ≠ .nil) ∧
    (ofHistory es).rawGetInt ((ofHistory es).length + 1) = .nil := by
  obtain ⟨h, hext, -⟩ := ofHistory_spec hes
  have ht : (ofHistory es).extent < 2 ^ 53 := Nat.lt_of_le_of_lt hext hes
  refine ⟨h.back_ne_nil, h.hash_ne_nil, fun n hn hle => ?_, fun k hk => ?_, h.encard_live ht,
    h.length_eq, h.border ht⟩
  · obtain ⟨i, rfl⟩ := Nat.exists_eq_add_of_le' hn
    have hsize := size_lt_of_extent_lt ht
    have hi : i < 2 ^ 53 := by omega
    exact h.hash_absent_of_le ht (Key.slot?_ofSlot hi) (Nat.le_of_succ_le_succ hle)
  · rcases (h.mem_live_iff ht).1 hk with ha | hh
    · exact .inl ⟨ha, h.not_inHash ha⟩
    · exact .inr ⟨hh, fun ha => h.not_inHash ha hh⟩

/-- A history that deletes `2` and then `3` of an array part of three, with `5` in the hash part. -/
def trimming : List Edit :=
  [.setInt 1 (.string "a"), .setInt 2 (.string "b"), .setInt 3 (.string "c"),
    .setInt 5 (.string "e"), .setInt 2 .nil, .setInt 3 .nil]

/-- Two keys are left, and the hole at `2` becomes the end of the array part. -/
theorem trimming_representation :
    trimming.length < 2 ^ 53 ∧ (ofHistory trimming).live.encard = 2 ∧
      (ofHistory trimming).rawGetInt ((ofHistory trimming).length + 1) = .nil ∧
      (ofHistory trimming).length = 1 := by
  obtain ⟨-, -, -, -, hcount, -, -, hnext⟩ := ofHistory_representation trimming (by decide)
  have htwo : (ofHistory trimming).count = 2 := by decide +kernel
  exact ⟨by decide, by rw [hcount, htwo]; rfl, hnext, by decide +kernel⟩

end LuaKernel.Table
