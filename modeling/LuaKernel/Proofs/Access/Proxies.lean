import LuaKernel.Proofs.Access.Writing

/-!
# Reads see writes through proxies

A proxy is a table whose handlers for reads and for writes are one table (`Heap.Mirrors`).  If all
tables are proxies that the handlers lead to, or have no handlers, then a value that was written is
read again (`getIndex_after_setIndex`).

The read walks on a heap that the write has changed, and with handlers of its own.  It visits the
same tables, and as many, as the recursion of the write did (`Heap.Writes.reads_set`).  For the
table that is written to is the last one: the tables before it have no entry, and the write gives
them none, since the recursion would have ended at the table the first time (`Heap.Writes.at_end`).
And the handlers of these tables stay as they were, also if the written table is one of their
metatables, unless the key is the one of the handler for reads.
-/

namespace LuaKernel

namespace Heap

/-- A handler of a table, for reads or for writes, is another table. -/
def Leads (h : Heap) (t u : TableId) : Prop :=
  h.metafield (.table t) .index = .table u ∨ h.metafield (.table t) .newIndex = .table u

/-- The handlers of a table for reads and for writes are raw-equal, and they are nil or a table. -/
structure Mirrors (h : Heap) (t : TableId) : Prop where
  rawEqual : (h.metafield (.table t) .index).rawEqual (h.metafield (.table t) .newIndex) = true
  index : h.metafield (.table t) .index = .nil ∨ (h.metafield (.table t) .index).isTable = true
  newIndex : h.metafield (.table t) .newIndex = .nil ∨
    (h.metafield (.table t) .newIndex).isTable = true

/-- All tables mirror that the handlers of a table lead to, itself included. -/
def MirrorsFrom (h : Heap) (t : TableId) : Prop :=
  ∀ u, Relation.ReflTransGen h.Leads t u → h.Mirrors u

variable {h : Heap} {t u : TableId} {key v : Value} {n : Nat}

theorem MirrorsFrom.next (hm : h.MirrorsFrom t) (hl : h.Leads t u) : h.MirrorsFrom u :=
  fun w hw => hm w (.head hl hw)

/-- What a write passes on to is a table, which a read passes on to as well. -/
theorem Mirrors.passes {w : Value} (hm : h.Mirrors t) (hp : h.Passes .newIndex key (.table t) w) :
    ∃ u, w = .table u ∧ h.Leads t u ∧ h.metafield (.table t) .index = .table u := by
  obtain ⟨-, hf, hnil, -⟩ := hp
  have hequal := hm.rawEqual
  have htable := hm.newIndex.resolve_left (hf ▸ hnil)
  rw [hf] at hequal htable
  cases w with
  | table u =>
      cases hi : h.metafield (.table t) .index with
      | table u' =>
          rw [hi] at hequal
          obtain rfl : u' = u := by simpa [Value.rawEqual] using hequal
          exact ⟨u', rfl, .inl hi, rfl⟩
      | nil | boolean _ | number _ | string _ | function _ =>
          rw [hi] at hequal
          cases hequal
  | nil | boolean _ | number _ | string _ | function _ => cases htable

/-- A handler is not a function. -/
theorem Mirrors.newIndex_ne_function (hm : h.Mirrors t) (f : Closure) :
    h.metafield (.table t) .newIndex ≠ .function f := by
  intro hf
  rcases hm.newIndex with hnil | htable
  · cases hf.symm.trans hnil
  · rw [hf] at htable
    cases htable

/-- The recursion of a write calls no function there. -/
theorem MirrorsFrom.not_calls (hm : h.MirrorsFrom t) {f : Closure} :
    ¬ h.Writes key (.table t) n (.calls f u) := by
  intro hw
  generalize hv : Value.table t = receiver at hw
  generalize hr : Writing.calls f u = r at hw
  induction hw generalizing t with
  | entry he | absent he hn => cases hr
  | refused ht => cases hr
  | handler he hf =>
      cases hv
      exact (hm _ .refl).newIndex_ne_function _ hf
  | next hp _ ih =>
      cases hv
      obtain ⟨u', rfl, hl, -⟩ := (hm _ .refl).passes hp
      exact ih (hm.next hl) rfl hr

/-- The recursion of a write ends at once at the table where it ends. -/
theorem Writes.at_end {receiver : Value} (hw : h.Writes key receiver n (.stores u)) :
    h.Writes key (.table u) 1 (.stores u) := by
  generalize hr : Writing.stores u = r at hw
  induction hw with
  | entry he =>
      cases hr
      exact .entry he
  | absent he hn =>
      cases hr
      exact .absent he hn
  | refused ht | handler he hf => cases hr
  | next _ _ ih => exact ih hr

/-- A write under another key than the one of a handler leaves the handlers of all other tables as
they were. -/
theorem metafield_set {contents : Table} (hset : (h.get u).rawSet key v = .ok contents)
    (htu : t ≠ u) {field : Metafield} (hkey : key ≠ .string field.key) :
    (h.set u contents).metafield (.table t) field = h.metafield (.table t) field := by
  have ht : (h.set u contents).get t = h.get t := (h.get_set u t contents).trans (if_neg htu)
  simp only [metafield, metatableOf, ht]
  cases (h.get t).metatable with
  | none => rfl
  | some m =>
      simp only [h.get_set]
      split
      · next hmu => rw [(Table.rawSet_frame hset).2, if_neg hkey, hmu]
      · rfl

theorem Reads.of_entry (he : (h.get t).rawGet key = v) (hv : v ≠ .nil) :
    h.Reads key (.table t) 1 (.gives v) := by
  subst he
  exact .entry hv

/-- **The read goes the way of the write.**  Where the recursion of a write stores a value, the
recursion of a read finds it after that, over as many receivers. -/
theorem Writes.reads_set (hg : h.Grown) {contents : Table}
    (hset : (h.get u).rawSet key v = .ok contents) (hkey : key ≠ .string Metafield.index.key)
    (hv : v ≠ .nil) (hm : h.MirrorsFrom t) (hw : h.Writes key (.table t) n (.stores u)) :
    (h.set u contents).Reads key (.table t) n (.gives v) := by
  have hread : ((h.set u contents).get u).rawGet key = v := by
    rw [h.get_set, if_pos rfl]
    exact hg.rawGet_rawSet_self hset
  have hlast := Reads.of_entry hread hv
  generalize hreceiver : Value.table t = receiver at hw
  generalize hr : Writing.stores u = r at hw
  induction hw generalizing t with
  | entry he | absent he hn =>
      cases hr
      exact hlast
  | refused ht | handler he hf => cases hr
  | @next t' w n r hp hw ih =>
      obtain rfl : t = t' := Value.table.inj hreceiver
      subst hr
      obtain ⟨u', rfl, hl, hindex⟩ := (hm _ .refl).passes hp
      -- If this table were written to, the recursion would have ended here.
      have htu : t ≠ u := by
        rintro rfl
        have hn := ((Writes.next hp hw).unique hw.at_end).1
        cases hw <;> cases hn
      have hp' : (h.set u contents).Passes .index key (.table t) (.table u') := by
        refine ⟨?_, (metafield_set hset htu hkey).trans hindex, Value.noConfusion,
          fun _ => Value.noConfusion⟩
        change ((h.set u contents).get t).rawGet key = .nil
        rw [h.get_set, if_neg htu]
        exact hp.1
      exact .next hp' (ih (hm.next hl) rfl rfl)

/-- Without a metatable, the recursion of a write ends at the table itself. -/
theorem writes_of_metatable_none (key : Value) (ht : (h.get t).metatable = none) :
    h.Writes key (.table t) 1 (.stores t) := by
  by_cases he : (h.get t).rawGet key = .nil
  · exact .absent he (by simp only [metafield, metatableOf, ht])
  · exact .entry he

/-- A read finds the value there, be it nil or not. -/
theorem reads_set_of_metatable_none (hg : h.Grown) {contents : Table}
    (hset : (h.get t).rawSet key v = .ok contents) (ht : (h.get t).metatable = none) :
    (h.set t contents).Reads key (.table t) 1 (.gives v) := by
  have hget : (h.set t contents).get t = contents := (h.get_set t t contents).trans (if_pos rfl)
  have hread : ((h.set t contents).get t).rawGet key = v := by
    rw [hget]
    exact hg.rawGet_rawSet_self hset
  have hindex : (h.set t contents).metafield (.table t) .index = .nil := by
    simp only [metafield, metatableOf, hget, (Table.rawSet_frame hset).1, ht]
  by_cases hv : v = .nil
  · subst hv
    exact .absent hread hindex
  · exact .of_entry hread hv

end Heap

/-- **Reads see writes.**  After a write to a table that succeeds, a read of the key gives the
value.  This is so where all tables mirror that the handlers lead to, the key is not the one of the
handler for reads, and the value is not nil; and it is so for every key and every value where the
table has no metatable. -/
theorem getIndex_after_setIndex (E E' : Engine) (m m' : Machine) (hg : m.heap.Grown) (t : TableId)
    (key v : Value) (hset : E.setIndex (.table t) key v m = (.ok (), m')) :
    (m.heap.MirrorsFrom t → key ≠ .string "__index" → v ≠ .nil →
      E'.getIndex (.table t) key m' = (.ok v, m')) ∧
    ((m.heap.get t).metatable = none → E'.getIndex (.table t) key m' = (.ok v, m')) := by
  constructor
  · intro hm hkey hv
    rcases E.setIndex_ok_cases hset with ⟨n, f, u, hw⟩ | ⟨n, u, contents, hw, hn, hraw, rfl⟩
    · exact absurd hw hm.not_calls
    · exact E'.getIndex_of_reads (m := { m.configured with heap := m.heap.set u contents })
        (hw.reads_set hg hraw hkey hv hm) hn
  · intro ht
    have hw := Heap.writes_of_metatable_none key ht
    rcases E.setIndex_ok_cases hset with
      ⟨n, f, u, hcalls⟩ | ⟨n, u, contents, hstores, hn, hraw, rfl⟩
    · cases (hcalls.unique hw).2
    · obtain ⟨rfl, hu⟩ := hstores.unique hw
      cases hu
      exact E'.getIndex_of_reads (m := { m.configured with heap := m.heap.set t contents })
        (Heap.reads_set_of_metatable_none hg hraw ht) hn

/-- The handlers lead from the proxy to the table behind it, and no further. -/
theorem Heap.mirrorsFrom_mirrored : Heap.mirrored.MirrorsFrom ⟨1⟩ := by
  have hthree : ∀ field, Heap.mirrored.metafield (.table ⟨3⟩) field = .nil := by
    intro field
    rfl
  have hreach : ∀ u, Relation.ReflTransGen Heap.mirrored.Leads ⟨1⟩ u → u = ⟨1⟩ ∨ u = ⟨3⟩ := by
    intro u hu
    induction hu with
    | refl => exact .inl rfl
    | tail _ hl ih =>
        rcases ih with rfl | rfl
        · rcases hl with hl | hl
          · exact .inr (Value.table.inj (hl.symm.trans (by decide)))
          · exact .inr (Value.table.inj (hl.symm.trans (by decide)))
        · rcases hl with hl | hl
          · cases (hthree _).symm.trans hl
          · cases (hthree _).symm.trans hl
  intro u hu
  rcases hreach u hu with rfl | rfl
  · exact ⟨by decide, .inr (by decide), .inr (by decide)⟩
  · exact ⟨by decide, .inl (by decide), .inl (by decide)⟩

/-- A value that is written to the proxy is read from it, and an entry of the table behind it that
is deleted reads nil. -/
theorem mirrored_reads_back :
    (∃ m', Engine.idle.setIndex (.table ⟨1⟩) (.string "x") (.boolean true)
        { heap := Heap.mirrored } = (.ok (), m') ∧
      Engine.idle.getIndex (.table ⟨1⟩) (.string "x") m' = (.ok (.boolean true), m')) ∧
    ∃ m', Engine.idle.setIndex (.table ⟨3⟩) (.string "x") .nil { heap := Heap.mirrored } =
        (.ok (), m') ∧
      Engine.idle.getIndex (.table ⟨3⟩) (.string "x") m' = (.ok .nil, m') := by
  have hproxy := Engine.idle.writesEntry (m := { heap := Heap.mirrored }) (v := .boolean true)
    Heap.grown_mirrored Heap.writes_mirrored (by decide) rfl
  have hbehind := Engine.idle.writesEntry (m := { heap := Heap.mirrored }) (v := .nil)
    Heap.grown_mirrored (Heap.writes_of_metatable_none (t := ⟨3⟩) (.string "x") rfl) (by decide) rfl
  obtain ⟨h₁, hset₁, -⟩ := hproxy.changed
  obtain ⟨h₂, hset₂, -⟩ := hbehind.changed
  exact ⟨⟨_, hset₁, (getIndex_after_setIndex _ Engine.idle _ _ Heap.grown_mirrored _ _ _ hset₁).1
      Heap.mirrorsFrom_mirrored (by decide) (by decide)⟩,
    ⟨_, hset₂, (getIndex_after_setIndex _ Engine.idle _ _ Heap.grown_mirrored _ _ _ hset₂).2 rfl⟩⟩

end LuaKernel
