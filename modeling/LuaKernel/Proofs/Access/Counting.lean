import LuaKernel.Library.Base
import LuaKernel.Proofs.Access.Reading
import LuaKernel.Proofs.Run.Heaps
import Mathlib.Algebra.Order.BigOperators.Group.Finset
import Mathlib.Data.Set.Card.Arithmetic

/-!
# Counting the length of a table

The length operator has no bound of its own: it reads position after position until one of them
reads nil.  It ends nevertheless, if no function takes part in reading.  For then every value that
is read is an entry of some table of the heap (`Heap.Reads.entry_of_gives`), different positions
have different keys up to `2⁵³`, and there are not so many entries (`Heap.natCast_le_encard_live`).

So there is a first position that reads no value (`Engine.exists_first_end`), and counting ends
there: with the number of positions before it, or with the error of the read
(`Engine.length_counts`).

The raw length is found in the array part, which can have holes.  It is a border, so that counting
does not go beyond it, and the two lengths are the same if there is no hole
(`Table.Normal.eq_length_iff`).
-/

namespace LuaKernel

/-- Positions are keys, by the slots before them. -/
theorem Value.key?_ofNat_succ (i : Nat) : (Value.ofNat (i + 1)).key? = some (.ofSlot i) :=
  key?_ofInt_succ i

namespace Heap

/-! ### Entries -/

/-- The entries of all tables, by their tables and keys. -/
def live (h : Heap) : Set (TableId × Key) := {e | e.2 ∈ (h.get e.1).live}

/-- There are as many entries as positions that have an entry in some table. -/
theorem natCast_le_encard_live {h : Heap} {n : Nat} (hn : n ≤ 2 ^ 53)
    (hentries : ∀ i < n, ∃ t, (h.get t).rawGet (.ofNat (i + 1)) ≠ .nil) :
    (n : ℕ∞) ≤ h.live.encard := by
  have : Nonempty TableId := ⟨stringMetatable⟩
  choose! table htable using hentries
  have hmaps : Set.MapsTo (fun i => (table i, Key.ofSlot i)) (Finset.range n : Set ℕ) h.live := by
    intro i hi
    exact ⟨_, Value.key?_ofNat_succ i, htable i (Finset.mem_range.1 hi)⟩
  have hinj : Set.InjOn (fun i => (table i, Key.ofSlot i)) (Finset.range n : Set ℕ) := by
    intro i hi j hj hij
    obtain ⟨-, hkey⟩ := Prod.mk.inj hij
    have hslot := Key.slot?_ofSlot (Nat.lt_of_lt_of_le (Finset.mem_range.1 hi) hn)
    rw [hkey, Key.slot?_ofSlot (Nat.lt_of_lt_of_le (Finset.mem_range.1 hj) hn)] at hslot
    exact (Option.some.inj hslot).symm
  have hcard := Set.encard_le_encard_of_injOn hmaps hinj
  rwa [Set.encard_coe_eq_coe_finsetCard, Finset.card_range] at hcard

/-- Only the tables that the heap has have entries. -/
theorem live_subset (h : Heap) :
    h.live ⊆ ⋃ i ∈ Finset.range h.tables.size, Prod.mk (TableId.mk i) '' (h.get ⟨i⟩).live := by
  rintro ⟨⟨i⟩, k⟩ hk
  have hi : i < h.tables.size := by
    by_contra hge
    have hempty : h.get ⟨i⟩ = Table.ofHistory [] := by simp [get, hge, Table.ofHistory]
    have hnone : ([] : List Table.Edit).length < 2 ^ 53 := Nat.two_pow_pos 53
    obtain ⟨v, -, hne⟩ : k ∈ (h.get ⟨i⟩).live := hk
    rw [hempty] at hne
    exact hne ((Table.ofHistory_spec hnone).2.2 v)
  exact Set.mem_biUnion (Finset.mem_range.2 hi) ⟨k, hk, rfl⟩

/-! ### Reads without functions -/

/-- The handlers for reads lead from a value to another one. -/
def Leading (h : Heap) : Value → Value → Prop :=
  Relation.ReflTransGen fun v w => h.metafield v .index = w

variable {h : Heap} {key v w : Value} {n : Nat}

/-- A read calls nothing, if the handlers lead to no function. -/
theorem not_reads_calls {f : Closure} {u : Value} (hv : ∀ f, ¬h.Leading v (.function f)) :
    ¬h.Reads key v n (.calls f u) := by
  intro hr
  generalize hcalls : Reading.calls f u = r at hr
  induction hr with
  | entry _ | absent _ _ | refused _ _ => cases hcalls
  | handler _ hf => exact hv _ (.single hf)
  | next hp _ ih => exact ih (fun f hw => hv f (.head hp.2.1 hw)) hcalls

/-- A value that is read is an entry of some table. -/
theorem Reads.entry_of_gives (hr : h.Reads key v n (.gives w)) (hw : w ≠ .nil) :
    ∃ t, (h.get t).rawGet key = w := by
  generalize hgives : Reading.gives w = r at hr
  induction hr with
  | @entry t _ =>
      cases hgives
      exact ⟨t, rfl⟩
  | absent _ _ =>
      cases hgives
      exact absurd rfl hw
  | refused _ _ | handler _ _ => cases hgives
  | next _ _ ih => exact ih hgives

end Heap

/-- A read that comes to no value: to nil, or to an error. -/
def NoValue (r : Except Halt Value) : Prop := r = .ok .nil ∨ ∃ e, r = .error (.error e)

theorem NoValue.eq_nil {w : Value} (hr : NoValue (.ok w)) : w = .nil := by
  rcases hr with hr | ⟨e, he⟩
  · exact Except.ok.inj hr
  · cases he

namespace Engine

/-- The first positions of a value read values, and reading them changes nothing. -/
def ReadsValues (E : Engine) (m : Machine) (v : Value) (n : Nat) : Prop :=
  ∀ i < n, ∃ w, w ≠ .nil ∧ E.getIndex v (.ofNat (i + 1)) m = (.ok w, m.configured)

variable {m : Machine} {v key : Value}

/-- What a read comes to that calls no function: an entry of some table, or else no value.  Nothing
is changed, and it does not matter what functions do. -/
theorem getIndex_settles (hv : ∀ f, ¬m.heap.Leading v (.function f)) (key : Value) :
    (∃ t w, (m.heap.get t).rawGet key = w ∧ w ≠ .nil ∧
      ∀ E : Engine, E.getIndex v key m = (.ok w, m.configured)) ∨
    ∃ r log, NoValue r ∧ ∀ E : Engine, E.getIndex v key m = (r, { m.configured with log }) := by
  rcases m.heap.findIndex_eq_tooLong_or_reads key m.limits.maxMetaChain v with
    hlong | ⟨n, r, hr, hn⟩
  · exact .inr ⟨_, _, .inr ⟨_, rfl⟩, fun E => E.getIndex_of_tooLong hlong⟩
  · have hend := fun E : Engine => E.getIndex_of_reads hr hn
    cases r with
    | gives w =>
        by_cases hw : w = .nil
        · subst hw
          exact .inr ⟨_, _, .inl rfl, hend⟩
        · obtain ⟨t, ht⟩ := hr.entry_of_gives hw
          exact .inl ⟨t, w, ht, hw, hend⟩
    | refuses u => exact .inr ⟨_, _, .inr ⟨_, rfl⟩, hend⟩
    | calls f u => exact absurd hr (Heap.not_reads_calls hv)

/-- Some position is the first that reads no value. -/
theorem exists_first_end (hfew : m.heap.live.encard < 2 ^ 53)
    (hv : ∀ f, ¬m.heap.Leading v (.function f)) :
    ∃ (n : ℕ) (r : Except Halt Value) (log : List Notice),
      n ≤ m.heap.live.encard ∧ NoValue r ∧ ∀ E : Engine, E.ReadsValues m v n ∧
        E.getIndex v (.ofNat (n + 1)) m = (r, { m.configured with log }) := by
  let reads (i : Nat) : Prop := ∃ t w, (m.heap.get t).rawGet (.ofNat (i + 1)) = w ∧ w ≠ .nil ∧
    ∀ E : Engine, E.getIndex v (.ofNat (i + 1)) m = (.ok w, m.configured)
  have hcount : ∀ n ≤ 2 ^ 53, (∀ i < n, reads i) → (n : ℕ∞) ≤ m.heap.live.encard := by
    intro n hn hall
    refine Heap.natCast_le_encard_live hn fun i hi => ?_
    obtain ⟨t, w, ht, hw, -⟩ := hall i hi
    exact ⟨t, ht ▸ hw⟩
  -- If all positions up to `2⁵³` read values, there would be `2⁵³` entries.
  obtain ⟨i, hi, hend⟩ : ∃ i < 2 ^ 53, ¬reads i := by
    by_contra hall
    push Not at hall
    exact absurd (hcount (2 ^ 53) (Nat.le_refl _) hall) (not_le.2 (by exact_mod_cast hfew))
  classical
  have hex : ∃ i, ¬reads i := ⟨i, hend⟩
  have hbefore : ∀ i < Nat.find hex, reads i := fun i hi => not_not.1 (Nat.find_min hex hi)
  have hlt : Nat.find hex < 2 ^ 53 := Nat.lt_of_le_of_lt (Nat.find_min' hex hend) hi
  rcases getIndex_settles hv (.ofNat (Nat.find hex + 1)) with hread | ⟨r, log, hr, hread⟩
  · exact absurd hread (Nat.find_spec hex)
  · refine ⟨Nat.find hex, r, log, hcount _ (Nat.le_of_lt hlt) hbefore, hr, fun E => ⟨?_, hread E⟩⟩
    intro i hi
    obtain ⟨t, w, -, hw, hvalue⟩ := hbefore i hi
    exact ⟨w, hw, hvalue E⟩

/-- No position before it reads no value. -/
theorem ReadsValues.le {E : Engine} {n k : Nat} {r : Except Halt Value} {m' : Machine}
    (hvalues : E.ReadsValues m v n) (hr : NoValue r)
    (hend : E.getIndex v (.ofNat (k + 1)) m = (r, m')) : n ≤ k := by
  refine Nat.le_of_not_lt fun hlt => ?_
  obtain ⟨w, hw, hread⟩ := hvalues k hlt
  obtain rfl := (Prod.mk.inj (hend.symm.trans hread)).1
  exact hw hr.eq_nil

/-! ### The loop -/

variable (E : Engine)

/-- To have read the configuration before makes no difference. -/
theorem getIndex_configured : E.getIndex v key m.configured = E.getIndex v key m := rfl

theorem countFrom_configured (probes n : Nat) :
    E.countFrom v (probes + 1) n m.configured = E.countFrom v (probes + 1) n m := by
  simp only [countFrom, Bind.bind, getIndex_configured]

/-- Counting goes on behind a position that reads a value. -/
theorem countFrom_of_value {n : Nat} {w : Value} (hw : w ≠ .nil)
    (hread : E.getIndex v (.ofNat (n + 1)) m = (.ok w, m.configured)) (probes : Nat) :
    E.countFrom v (probes + 2) n m = E.countFrom v (probes + 1) (n + 1) m := by
  rw [countFrom, Action.bind_of_ok _ hread, if_neg (by simp [Value.isNil_eq_false hw]),
    countFrom_configured]

/-- Counting goes on behind all positions that read values. -/
theorem countFrom_of_values {n : Nat} (hvalues : E.ReadsValues m v n) (probes : Nat) :
    E.countFrom v (n + probes + 1) 0 m = E.countFrom v (probes + 1) n m := by
  induction n generalizing probes with
  | zero => rw [Nat.zero_add]
  | succ n ih =>
      obtain ⟨w, hw, hlast⟩ := hvalues n (Nat.lt_succ_self n)
      have hprobes : n + 1 + probes + 1 = n + (probes + 1) + 1 := by omega
      rw [hprobes, ih fun i hi => hvalues i (Nat.lt_succ_of_lt hi), E.countFrom_of_value hw hlast]

/-- Counting ends at the first position that reads no value. -/
theorem length_counts {t : TableId} (hlength : m.heap.metafield (.table t) .length = .nil) {n : Nat}
    (hvalues : E.ReadsValues m (.table t) n) {r : Except Halt Value} {log : List Notice}
    (hr : NoValue r)
    (hend : E.getIndex (.table t) (.ofNat (n + 1)) m = (r, { m.configured with log }))
    (hprobes : n < E.probes) :
    E.length (.table t) m = (r.map fun _ => .ofNat n, { m.configured with log }) := by
  obtain ⟨probes, hprobes⟩ := Nat.exists_eq_add_of_lt hprobes
  rw [length, Action.bind_of_ok _ (Action.heap_apply _), hlength]
  simp only [Value.isNil, hprobes]
  rcases hr with rfl | ⟨e, rfl⟩
  · refine Action.bind_of_ok _ ?_
    rw [E.countFrom_of_values hvalues, countFrom, Action.bind_of_ok _ hend]
    rfl
  · refine Action.bind_of_error _ ?_
    rw [E.countFrom_of_values hvalues, countFrom, Action.bind_of_error _ hend]

/-- A read from a table without a metatable is a raw read. -/
theorem getIndex_of_metatable_none {t : TableId} (ht : (m.heap.get t).metatable = none)
    (hlimit : 0 < m.limits.maxMetaChain) :
    E.getIndex (.table t) key m = (.ok ((m.heap.get t).rawGet key), m.configured) := by
  by_cases he : (m.heap.get t).rawGet key = .nil
  · have hn : m.heap.metafield (.table t) .index = .nil := by
      simp only [Heap.metafield, Heap.metatableOf, ht]
    rw [he]
    exact E.getIndex_of_reads (.absent he hn) hlimit
  · exact E.getIndex_of_reads (.entry he) hlimit

/-- The value of such a read is the raw one, also if no read succeeds. -/
theorem rawGet_of_getIndex {t : TableId} (ht : (m.heap.get t).metatable = none) {w : Value}
    {m' : Machine} (hread : E.getIndex (.table t) key m = (.ok w, m')) :
    (m.heap.get t).rawGet key = w := by
  rcases Nat.eq_zero_or_pos m.limits.maxMetaChain with hlimit | hlimit
  · have hlong : m.heap.findIndex key m.limits.maxMetaChain (.table t) = .tooLong := by
      rw [hlimit]
      rfl
    rw [E.getIndex_of_tooLong hlong] at hread
    cases (Prod.mk.inj hread).1
  · rw [E.getIndex_of_metatable_none ht hlimit] at hread
    exact Except.ok.inj (Prod.mk.inj hread).1

end Engine

/-! ### The raw length -/

namespace Table

variable {t : Table}

theorem rawGet_ofNat_succ (t : Table) (i : Nat) : t.rawGet (.ofNat (i + 1)) = t.get (.ofSlot i) :=
  rawGet_eq_get t (Value.key?_ofNat_succ i)

/-- A table has values at some first positions, and at no others. -/
def IsSequence (t : Table) : Prop := ∃ n, ∀ i, t.rawGet (.ofNat (i + 1)) ≠ .nil ↔ i < n

/-- Positions with values, counted from the first one, are not more than the length. -/
theorem Normal.le_length (h : Normal t) {n : Nat} (hn : n < 2 ^ 53)
    (hvalues : ∀ i < n, t.rawGet (.ofNat (i + 1)) ≠ .nil) : n ≤ t.length := by
  rw [h.length_eq]
  refine Nat.le_of_not_lt fun hlt => hvalues _ hlt ?_
  rw [rawGet_ofNat_succ]
  exact h.get_next (Nat.lt_trans hlt hn)

/-- They are as many as the length, if and only if there is no hole before it. -/
theorem Normal.eq_length_iff (h : Normal t) {n : Nat} (hn : n < 2 ^ 53)
    (hvalues : ∀ i < n, t.rawGet (.ofNat (i + 1)) ≠ .nil)
    (hnil : t.rawGet (.ofNat (n + 1)) = .nil) :
    n = t.length ↔ ∀ i < t.length, t.rawGet (.ofNat (i + 1)) ≠ .nil := by
  constructor
  · rintro rfl
    exact hvalues
  · intro hall
    refine Nat.le_antisymm (h.le_length hn hvalues) (Nat.le_of_not_lt fun hlt => ?_)
    exact hall n hlt hnil

/-- A sequence has no hole before its length. -/
theorem Apart.values_of_isSequence (h : Apart t) (hsize : t.array.size ≤ 2 ^ 53)
    (hs : t.IsSequence) : ∀ i < t.length, t.rawGet (.ofNat (i + 1)) ≠ .nil := by
  obtain ⟨n, hn⟩ := hs
  rw [h.length_eq]
  intro i hi
  obtain ⟨last, hlast⟩ := Nat.exists_eq_add_of_lt (Nat.zero_lt_of_lt hi)
  rw [Nat.zero_add] at hlast
  have hvalue := h.get_last_ne_nil hsize hlast
  rw [← rawGet_ofNat_succ, hn] at hvalue
  exact (hn i).2 (by omega)

end Table

/-! ### The first border -/

/-- **The length operator finds the first border.**  Let there be fewer than `2⁵³` entries in the
tables of the heap, and let a table have no handler for its length, and no function among the
handlers that a read of it can come to.  Then there is a first position that reads no value, after
no more positions than there are entries.  Counting ends there, on every engine that may probe so
far, and changes nothing but the configuration, which it installs, and the log.  If the position
reads nil, then the length is the number of the positions before it; and if the read fails, then the
length fails with the same error.

Without a metatable, this number is not greater than the raw length, and, if a read may visit a
receiver at all, it is the length; it is the raw length if and only if no position up to that reads
nil.  So the two lengths of a sequence are the same. -/
theorem length_is_first_border (m : Machine) (t : TableId) (hg : m.heap.Grown)
    (hfew : m.heap.live.encard < 2 ^ 53)
    (hlength : m.heap.metafield (.table t) .length = .nil)
    (hindex : ∀ f, ¬m.heap.Leading (.table t) (.function f)) :
    ∃ (n : ℕ) (r : Except Halt Value) (log : List Notice),
      n ≤ m.heap.live.encard ∧ NoValue r ∧
      (∀ E : Engine, E.ReadsValues m (.table t) n ∧
        E.getIndex (.table t) (.ofNat (n + 1)) m = (r, { m.configured with log }) ∧
        (n < E.probes →
          E.length (.table t) m = (r.map fun _ => .ofNat n, { m.configured with log }))) ∧
      ((m.heap.get t).metatable = none →
        n ≤ (m.heap.get t).length ∧
        Library.rawlen [.table t] m = (.ok (.single (.ofNat (m.heap.get t).length)), m) ∧
        (0 < m.limits.maxMetaChain →
          r = .ok .nil ∧
          (n = (m.heap.get t).length ↔
            ∀ i < (m.heap.get t).length, (m.heap.get t).rawGet (.ofNat (i + 1)) ≠ .nil) ∧
          ((m.heap.get t).IsSequence → n = (m.heap.get t).length))) := by
  obtain ⟨n, r, log, hn, hr, hall⟩ := Engine.exists_first_end hfew hindex
  refine ⟨n, r, log, hn, hr, fun E => ⟨(hall E).1, (hall E).2, ?_⟩, fun ht => ?_⟩
  · exact E.length_counts hlength (hall E).1 hr (hall E).2
  have hlt : n < 2 ^ 53 := by exact_mod_cast lt_of_le_of_lt hn hfew
  obtain ⟨es, hes⟩ := hg t
  obtain ⟨hnormal, hsize⟩ := Table.normal_ofHistory es
  rw [← hes] at hnormal hsize
  have hraw : ∀ i < n, (m.heap.get t).rawGet (.ofNat (i + 1)) ≠ .nil := by
    intro i hi
    obtain ⟨w, hw, hread⟩ := (hall Engine.idle).1 i hi
    rw [Engine.idle.rawGet_of_getIndex ht hread]
    exact hw
  refine ⟨hnormal.le_length hlt hraw, rfl, fun hlimit => ?_⟩
  have hlast := (hall Engine.idle).2
  rw [Engine.idle.getIndex_of_metatable_none ht hlimit] at hlast
  obtain rfl := (Prod.mk.inj hlast).1
  have hiff := hnormal.eq_length_iff hlt hraw hr.eq_nil
  exact ⟨congrArg Except.ok hr.eq_nil, hiff,
    fun hs => hiff.2 (hnormal.toApart.values_of_isSequence hsize hs)⟩

/-- A heap with a loop and a hole: table `1` is its own metatable, and its own handler for reads;
table `2` has a value at `1` and at `3`, but none at `2`. -/
def Heap.looped : Heap :=
  ⟨#[Table.empty,
    Table.ofHistory [.setInt 1 (.string "a"), .set (.string "__index") (.table ⟨1⟩),
      .setMetatable (some ⟨1⟩)],
    Table.ofHistory [.setInt 1 (.string "a"), .setInt 2 (.string "b"), .setInt 3 (.string "c"),
      .setInt 2 .nil]]⟩

theorem Heap.grown_looped : Heap.looped.Grown := by
  rintro ⟨i⟩
  match i with
  | 0 => exact ⟨[], rfl⟩
  | 1 | 2 => exact ⟨_, rfl⟩
  | i + 3 => exact ⟨[], rfl⟩

theorem Heap.encard_live_looped : Heap.looped.live.encard < 2 ^ 53 := by
  have hcount : ∀ es : List Table.Edit, es.length < 2 ^ 53 →
      (Table.ofHistory es).live.encard = (Table.ofHistory es).count := by
    intro es hes
    obtain ⟨hnormal, hext, -⟩ := Table.ofHistory_spec hes
    exact hnormal.encard_live (Nat.lt_of_le_of_lt hext hes)
  have hfirst : (Heap.looped.get ⟨0⟩).live.encard = 0 :=
    (hcount [] (by decide)).trans (congrArg Nat.cast (by decide +kernel))
  have hloop : (Heap.looped.get ⟨1⟩).live.encard = 2 :=
    (hcount _ (by decide)).trans (congrArg Nat.cast (by decide +kernel))
  have hhole : (Heap.looped.get ⟨2⟩).live.encard = 2 :=
    (hcount _ (by decide)).trans (congrArg Nat.cast (by decide +kernel))
  calc Heap.looped.live.encard
      ≤ (⋃ i ∈ Finset.range 3, Prod.mk (TableId.mk i) '' (Heap.looped.get ⟨i⟩).live).encard :=
        Set.encard_le_encard Heap.looped.live_subset
    _ ≤ ∑ i ∈ Finset.range 3, (Prod.mk (TableId.mk i) '' (Heap.looped.get ⟨i⟩).live).encard :=
        Finset.set_encard_biUnion_le _ _
    _ ≤ ∑ i ∈ Finset.range 3, (Heap.looped.get ⟨i⟩).live.encard :=
        Finset.sum_le_sum fun i _ => Set.encard_image_le _ _
    _ = 0 + 0 + 2 + 2 := by
        rw [Finset.sum_range_succ, Finset.sum_range_succ, Finset.sum_range_succ,
          Finset.sum_range_zero, hfirst, hloop, hhole]
    _ < 2 ^ 53 := by decide

/-- The handlers lead from table `1` to itself, and from table `2` to nil. -/
theorem Heap.leading_looped {v w : Value} (hv : v = .table ⟨1⟩ ∨ v = .table ⟨2⟩)
    (h : Heap.looped.Leading v w) : ∀ f, w ≠ .function f := by
  have hreach : w = .table ⟨1⟩ ∨ w = .table ⟨2⟩ ∨ w = .nil := by
    induction h with
    | refl => exact hv.imp_right .inl
    | tail _ hstep ih =>
        rcases ih with rfl | rfl | rfl
        · exact .inl (hstep.symm.trans (by decide +kernel))
        · exact .inr (.inr (hstep.symm.trans (by decide +kernel)))
        · exact .inr (.inr hstep.symm)
  rintro f rfl
  rcases hreach with h | h | h <;> cases h

/-- A machine on this heap. -/
def Machine.looped : Machine := { heap := Heap.looped, config := some .standard }

/-- The length of a table with a loop behind it fails, with the error of a read at the second
position; a table with a hole has a length before the hole, and a greater raw length. -/
theorem looped_lengths :
    Heap.looped.live.encard < 2 ^ 53 ∧
    (∀ E : Engine, 1 < E.probes →
      E.length (.table ⟨1⟩) .looped = Machine.looped.chainTooLong .index) ∧
    (∃ log, ∀ E : Engine, 1 < E.probes →
      E.length (.table ⟨2⟩) .looped = (.ok (.ofNat 1), { Machine.looped with log })) ∧
    Library.rawlen [.table ⟨2⟩] .looped = (.ok (.single (.ofNat 3)), .looped) := by
  have hpass : Heap.looped.Passes .index (.ofNat 2) (.table ⟨1⟩) (.table ⟨1⟩) :=
    ⟨by decide +kernel, by decide +kernel, Value.noConfusion, fun _ => Value.noConfusion⟩
  have hloop : ∀ E : Engine,
      E.getIndex (.table ⟨1⟩) (.ofNat 2) .looped = Machine.looped.chainTooLong .index := fun E =>
    E.getIndex_of_not_reads fun n r hr =>
      absurd hr (Heap.not_reads_of_loop (h := Heap.looped) .refl (.single hpass))
  have hhole : ∀ E : Engine, E.getIndex (.table ⟨2⟩) (.ofNat 2) .looped = (.ok .nil, .looped) :=
    fun E => E.getIndex_of_reads (m := .looped) (.absent (by decide +kernel) (by decide +kernel))
      (by decide)
  have hfirst : ∀ t : TableId, (Heap.looped.get t).rawGet (.ofNat 1) = .string "a" →
      Engine.idle.ReadsValues .looped (.table t) 1 := by
    intro t ht i hi
    obtain rfl := Nat.lt_one_iff.1 hi
    have hne : (Heap.looped.get t).rawGet (.ofNat 1) ≠ .nil := by
      rw [ht]
      exact Value.noConfusion
    exact ⟨_, hne, Engine.idle.getIndex_of_reads (m := .looped) (.entry hne) (by decide)⟩
  refine ⟨Heap.encard_live_looped, ?_, ?_⟩
  · obtain ⟨n, r, log, -, hr, hall, -⟩ := length_is_first_border .looped ⟨1⟩ Heap.grown_looped
      Heap.encard_live_looped (by decide +kernel) fun f h => Heap.leading_looped (.inl rfl) h f rfl
    obtain ⟨hvalues, hend, -⟩ := hall Engine.idle
    obtain rfl : n = 1 := Nat.le_antisymm (hvalues.le (.inr ⟨_, rfl⟩) (hloop _))
      ((hfirst ⟨1⟩ (by decide +kernel)).le hr hend)
    intro E hprobes
    rcases hr with rfl | ⟨e, rfl⟩
    · cases (Prod.mk.inj ((hloop _).symm.trans hend)).1
    · exact ((hall E).2.2 hprobes).trans ((hall E).2.1.symm.trans (hloop E))
  · obtain ⟨n, r, log, -, hr, hall, hraw⟩ := length_is_first_border .looped ⟨2⟩ Heap.grown_looped
      Heap.encard_live_looped (by decide +kernel) fun f h => Heap.leading_looped (.inr rfl) h f rfl
    obtain ⟨hvalues, hend, -⟩ := hall Engine.idle
    obtain rfl : n = 1 := Nat.le_antisymm (hvalues.le (.inl rfl) (hhole _))
      ((hfirst ⟨2⟩ (by decide +kernel)).le hr hend)
    obtain ⟨-, hrawlen, hnil⟩ := hraw (by decide +kernel)
    obtain ⟨rfl, -⟩ := hnil (by decide)
    have hlength : (Machine.looped.heap.get ⟨2⟩).length = 3 := by decide +kernel
    rw [hlength] at hrawlen
    refine ⟨⟨log, fun E hprobes => ?_⟩, hrawlen⟩
    rw [(hall E).2.2 hprobes, Except.map]
    rfl

end LuaKernel
