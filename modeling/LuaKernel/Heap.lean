import LuaKernel.Table.Basic

/-!
# The heap

The tables of a run by their identities.  A heap is total: an identity that was never handed out
names a table without entries.  So reading after writing needs no condition (`get_set`), and
allocating changes no table (`get_alloc`).  The first table of every heap is the metatable that all
strings share.
-/

namespace LuaKernel

/-- The tables of a run. -/
structure Heap where
  tables : Array Table

namespace Heap

/-- The heap with the metatable of strings and no other table. -/
def start : Heap := ⟨#[Table.empty]⟩

/-- The metatable that all strings share. -/
def stringMetatable : TableId := ⟨0⟩

/-- The table of an identity. -/
def get (h : Heap) (t : TableId) : Table := h.tables.getD t.index Table.empty

/-- The tables of a heap, followed by tables without entries up to a length. -/
def padded (h : Heap) (n : Nat) : Array Table :=
  h.tables ++ Array.replicate (n - h.tables.size) Table.empty

/-- The heap with another table for an identity. -/
def set (h : Heap) (t : TableId) (contents : Table) : Heap :=
  ⟨(h.padded (t.index + 1)).setIfInBounds t.index contents⟩

/-- A new table: its identity, and the heap with it. -/
def alloc (h : Heap) : TableId × Heap := (⟨h.tables.size⟩, ⟨h.tables.push Table.empty⟩)

/-! ### Laws -/

theorem getD_padded (h : Heap) (n i : Nat) :
    (h.padded n).getD i Table.empty = h.tables.getD i Table.empty := by
  simp only [padded, Array.getD_eq_getD_getElem?, Array.getElem?_append, Array.getElem?_replicate]
  split
  · rfl
  · split <;> simp_all

theorem size_padded (h : Heap) (n : Nat) : n ≤ (h.padded n).size := by
  simp [padded]; omega

/-- A written table reads back, and no other table changes. -/
theorem get_set (h : Heap) (t u : TableId) (contents : Table) :
    (h.set t contents).get u = if u = t then contents else h.get u := by
  obtain ⟨i⟩ := t
  obtain ⟨j⟩ := u
  have hs := h.size_padded (i + 1)
  simp only [get, set, TableId.mk.injEq]
  by_cases hji : j = i
  · subst hji
    have hi : j < (h.padded (j + 1)).size := by omega
    simp [Array.getD_eq_getD_getElem?, hi]
  · rw [if_neg hji, ← h.getD_padded (i + 1) j]
    simp [Array.getD_eq_getD_getElem?, Ne.symm hji]

/-- Allocating changes no table. -/
theorem get_alloc (h : Heap) (u : TableId) : h.alloc.2.get u = h.get u := by
  obtain ⟨j⟩ := u
  simp only [get, alloc, Array.getD_eq_getD_getElem?, Array.getElem?_push]
  by_cases hj : j = h.tables.size
  · simp [hj]
  · simp [hj]

end Heap

end LuaKernel
