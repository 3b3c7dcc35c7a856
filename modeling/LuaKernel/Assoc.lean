/-!
# Association lists

Finite maps as lists of entries without two entries of one key.  The order of the entries is the
order of the last insertion: `insert` puts its entry at the end, also when the key was there
before.  `get?` reads a map as a partial function, and the laws of `insert` and `erase` are stated
through it.
-/

namespace LuaKernel

/-- A finite map from `κ` to `ν`, as entries in the order of their last insertion. -/
structure Assoc (κ ν : Type) where
  entries : List (κ × ν)
  /-- No key has two entries. -/
  nodup : (entries.map Prod.fst).Nodup

namespace Assoc

variable {κ ν : Type}

/-- The map without entries. -/
def empty : Assoc κ ν := ⟨[], by simp⟩

instance : Inhabited (Assoc κ ν) := ⟨empty⟩

/-- The keys, the last inserted one last. -/
def keys (m : Assoc κ ν) : List κ := m.entries.map Prod.fst

/-- The number of entries. -/
def size (m : Assoc κ ν) : Nat := m.entries.length

variable [DecidableEq κ]

/-- The value of the first entry of a key. -/
def find? (k : κ) : List (κ × ν) → Option ν
  | [] => none
  | (k', v) :: rest => if k' = k then some v else find? k rest

/-- The value of a key. -/
def get? (m : Assoc κ ν) (k : κ) : Option ν := find? k m.entries

/-- Whether a key has a value. -/
def contains (m : Assoc κ ν) (k : κ) : Bool := (m.get? k).isSome

/-- The entries of other keys. -/
def others (k : κ) (es : List (κ × ν)) : List (κ × ν) := es.filter (fun e => !decide (e.1 = k))

theorem nodup_others {k : κ} {es : List (κ × ν)} (h : (es.map Prod.fst).Nodup) :
    ((others k es).map Prod.fst).Nodup :=
  h.sublist (List.filter_sublist.map Prod.fst)

theorem not_mem_others {k : κ} {es : List (κ × ν)} : k ∉ (others k es).map Prod.fst := by
  simp [others]

/-- The map without a key. -/
def erase (m : Assoc κ ν) (k : κ) : Assoc κ ν := ⟨others k m.entries, nodup_others m.nodup⟩

/-- The map with a value for a key, which becomes the last one. -/
def insert (m : Assoc κ ν) (k : κ) (v : ν) : Assoc κ ν where
  entries := others k m.entries ++ [(k, v)]
  nodup := by
    rw [List.map_append, List.nodup_append]
    refine ⟨nodup_others m.nodup, by simp, ?_⟩
    rintro a ha b hb rfl
    simp only [List.map_cons, List.map_nil, List.mem_singleton] at hb
    exact not_mem_others (hb ▸ ha)

/-- The map without its first entry. -/
def dropFirst (m : Assoc κ ν) : Assoc κ ν where
  entries := m.entries.tail
  nodup := by
    rw [List.map_tail]
    exact m.nodup.sublist (List.tail_sublist _)

/-! ### Reading -/

@[simp] theorem get?_empty (k : κ) : (empty : Assoc κ ν).get? k = none := rfl

theorem find?_append (k : κ) (xs ys : List (κ × ν)) :
    find? k (xs ++ ys) = (find? k xs).or (find? k ys) := by
  induction xs with
  | nil => simp [find?]
  | cons e xs ih =>
      obtain ⟨k', v⟩ := e
      by_cases h : k' = k <;> simp [find?, h, ih]

theorem find?_others (k j : κ) (es : List (κ × ν)) :
    find? j (others k es) = if j = k then none else find? j es := by
  induction es with
  | nil => simp [others, find?]
  | cons e es ih =>
      obtain ⟨k', v⟩ := e
      unfold others at ih ⊢
      by_cases hk : k' = k
      · subst hk
        rw [List.filter_cons_of_neg (by simp), ih]
        by_cases hj : j = k'
        · simp [hj]
        · simp [hj, find?, Ne.symm hj]
      · rw [List.filter_cons_of_pos (by simpa using hk)]
        by_cases hj : k' = j
        · subst hj
          simp [find?, hk]
        · simp [find?, hj, ih]

/-- Erasing a key takes its value away and no other. -/
theorem get?_erase (m : Assoc κ ν) (k j : κ) :
    (m.erase k).get? j = if j = k then none else m.get? j :=
  find?_others k j m.entries

/-- Inserting gives a key its value and leaves all others. -/
theorem get?_insert (m : Assoc κ ν) (k : κ) (v : ν) (j : κ) :
    (m.insert k v).get? j = if j = k then some v else m.get? j := by
  unfold get? insert
  rw [find?_append, find?_others]
  by_cases h : j = k
  · simp [h, find?]
  · simp [h, find?, Ne.symm h]

/-! ### Counting -/

theorem mem_keys_iff (m : Assoc κ ν) (k : κ) : k ∈ m.keys ↔ ∃ v, m.get? k = some v := by
  unfold keys get?
  induction m.entries with
  | nil => simp [find?]
  | cons e es ih =>
      obtain ⟨k', v⟩ := e
      by_cases h : k' = k
      · simp [find?, h]
      · simp [find?, h, Ne.symm h, ih]

/-- Dropping the first entry gives no key another value. -/
theorem get?_of_get?_dropFirst {m : Assoc κ ν} {k : κ} {v : ν} (h : m.dropFirst.get? k = some v) :
    m.get? k = some v := by
  have hk : k ∈ m.dropFirst.keys := (mem_keys_iff _ k).2 ⟨v, h⟩
  obtain ⟨es, hn⟩ := m
  cases es with
  | nil => exact h
  | cons e es =>
      have hne : e.1 ≠ k := fun he => (List.nodup_cons.1 hn).1 (he ▸ hk)
      rw [get?, find?, if_neg hne]
      exact h

theorem get?_of_size_eq_zero {m : Assoc κ ν} (h : m.size = 0) (k : κ) : m.get? k = none := by
  rw [get?, List.eq_nil_of_length_eq_zero h]
  rfl

theorem size_eq_zero_of_get? {m : Assoc κ ν} (h : ∀ k, m.get? k = none) : m.size = 0 := by
  have hkeys : m.keys = [] := List.eq_nil_iff_forall_not_mem.2 fun k hk => by
    obtain ⟨v, hv⟩ := (mem_keys_iff m k).1 hk
    cases (h k).symm.trans hv
  exact List.length_eq_zero_iff.2 (List.map_eq_nil_iff.1 hkeys)

theorem keys_erase (m : Assoc κ ν) (k : κ) : (m.erase k).keys = m.keys.erase k := by
  have hn : m.keys.Nodup := m.nodup
  have hf : (m.erase k).keys = m.keys.filter (fun j => !decide (j = k)) := by
    simp only [keys, erase, others, List.filter_map]
    rfl
  rw [hf, hn.erase_eq_filter]
  rfl

/-- Erasing a key takes one entry away if the key has one. -/
theorem size_erase (m : Assoc κ ν) (k : κ) :
    (m.erase k).size + (if (m.get? k).isSome then 1 else 0) = m.size := by
  have hs : ∀ n : Assoc κ ν, n.size = n.keys.length := fun n => (List.length_map _).symm
  rw [hs, hs, keys_erase]
  cases h : m.get? k with
  | none =>
      have hk : k ∉ m.keys := fun hk => by
        obtain ⟨v, hv⟩ := (mem_keys_iff m k).1 hk
        rw [h] at hv
        cases hv
      rw [List.erase_of_not_mem hk]
      rfl
  | some v =>
      have hk : k ∈ m.keys := (mem_keys_iff m k).2 ⟨v, h⟩
      rw [List.length_erase_of_mem hk]
      exact Nat.sub_add_cancel (List.length_pos_of_mem hk)

theorem size_erase_le (m : Assoc κ ν) (k : κ) : (m.erase k).size ≤ m.size := by
  rw [← size_erase m k]
  exact Nat.le_add_right _ _

/-- Inserting adds at most one entry. -/
theorem size_insert_le (m : Assoc κ ν) (k : κ) (v : ν) : (m.insert k v).size ≤ m.size + 1 := by
  have h : (m.insert k v).size = (m.erase k).size + 1 := List.length_append
  rw [h]
  exact Nat.add_le_add_right (size_erase_le m k) 1

end Assoc

end LuaKernel
