import LuaKernel.Proofs.Access.Hops
import LuaKernel.Proofs.Run.Heaps

/-!
# Writing with metatables

What `receiver[key] = v` means, said by recursion on receivers and without a bound (`Heap.Writes`):
a table with an entry, or without a handler, is written to; a handler that is a function is called;
any other handler is written to in place of the table; and a receiver that is no table is refused.
As with reads, the recursion is a function where it ends (`Heap.Writes.unique`), and a write with a
limit is the recursion, cut off (`Engine.setIndex_of_writes`, `Engine.setIndex_of_tooLong`).

The main result is what a write does to the heap (`setIndex_frame`).  It stores the value in one
table, or makes one call, or fails; and all but the one entry, or the call, is as it was before.
That no other entry of the table changes needs that its two parts are apart.  They are in tables
that have come about by changes (`Heap.Grown`), and so in every table that a run meets
(`always_grown`).
-/

namespace LuaKernel

/-! ### Writing without a limit -/

/-- What a write comes to. -/
inductive Writing where
  /-- The value is stored in a table. -/
  | stores (t : TableId)
  /-- A receiver that cannot be indexed. -/
  | refuses (receiver : Value)
  /-- A call of a function, for a table. -/
  | calls (f : Closure) (t : TableId)

namespace Heap

/-- Writing to `key` of a receiver visits so many receivers, and comes to something. -/
inductive Writes (h : Heap) (key : Value) :
    (receiver : Value) → (visits : Nat) → Writing → Prop where
  /-- A table with an entry is written to. -/
  | entry {t : TableId} (he : (h.get t).rawGet key ≠ .nil) : Writes h key (.table t) 1 (.stores t)
  /-- A table without a handler is written to. -/
  | absent {t : TableId} (he : (h.get t).rawGet key = .nil)
      (hn : h.metafield (.table t) .newIndex = .nil) : Writes h key (.table t) 1 (.stores t)
  /-- A receiver that is no table is refused. -/
  | refused {v : Value} (ht : v.isTable = false) : Writes h key v 1 (.refuses v)
  /-- A function is called, for the table whose handler it is. -/
  | handler {t : TableId} {f : Closure} (he : (h.get t).rawGet key = .nil)
      (hf : h.metafield (.table t) .newIndex = .function f) : Writes h key (.table t) 1 (.calls f t)
  /-- Any other handler is written to in place of the table. -/
  | next {t : TableId} {w : Value} {n : Nat} {r : Writing}
      (hp : h.Passes .newIndex key (.table t) w) (hr : Writes h key w n r) :
      Writes h key (.table t) (n + 1) r

end Heap

/-! ### What the walk finds -/

/-- The end of a walk that a writing is. -/
def Writing.found : Writing → NewIndexResult
  | .stores t => .table t
  | .refuses v => .refused v
  | .calls f t => .handler f (.table t)

/-- What a walk finds tells what the write comes to. -/
theorem Writing.found_injective {r r' : Writing} (hf : r.found = r'.found) : r = r' := by
  cases r <;> cases r' <;> cases hf <;> rfl

theorem Writing.found_ne_tooLong (r : Writing) : r.found ≠ .tooLong := by
  cases r <;> exact NewIndexResult.noConfusion

namespace Heap

variable {h : Heap} {key v : Value} {n : Nat} {r : Writing}

/-- What is not a table cannot be written to. -/
theorem findNewIndex_of_not_isTable (ht : v.isTable = false) (limit : Nat) :
    h.findNewIndex key (limit + 1) v = .refused v := by
  cases v with
  | table t => cases ht
  | nil | boolean _ | number _ | string _ | function _ => rfl

/-- The walk of a write is the recursion, cut off. -/
theorem Writes.findNewIndex_eq (hr : h.Writes key v n r) (limit : Nat) :
    h.findNewIndex key limit v = if n ≤ limit then r.found else .tooLong := by
  induction hr generalizing limit with
  | entry he =>
      cases limit with
      | zero => rfl
      | succ limit => exact findNewIndex_of_entry he limit
  | absent he hn =>
      cases limit with
      | zero => rfl
      | succ limit =>
          rw [findNewIndex_of_absent he, hn]
          rfl
  | refused ht =>
      cases limit with
      | zero => rfl
      | succ limit => exact findNewIndex_of_not_isTable ht limit
  | handler he hf =>
      cases limit with
      | zero => rfl
      | succ limit =>
          rw [findNewIndex_of_absent he, hf]
          rfl
  | next hp _ ih =>
      cases limit with
      | zero => rfl
      | succ limit =>
          rw [hp.findNewIndex_eq, ih limit]
          simp only [Nat.add_le_add_iff_right]

/-- A walk that finds something finds what writing comes to. -/
theorem findNewIndex_eq_tooLong_or_writes (h : Heap) (key : Value) (limit : Nat) (v : Value) :
    h.findNewIndex key limit v = .tooLong ∨ ∃ n r, h.Writes key v n r ∧ n ≤ limit := by
  induction limit generalizing v with
  | zero => exact .inl rfl
  | succ limit ih =>
      cases v with
      | table t =>
          by_cases he : (h.get t).rawGet key = .nil
          · -- Without an entry, the handler says which rule it is.
            cases hf : h.metafield (.table t) .newIndex with
            | nil => exact .inr ⟨1, _, .absent he hf, Nat.succ_pos limit⟩
            | function f => exact .inr ⟨1, _, .handler he hf, Nat.succ_pos limit⟩
            | boolean _ | number _ | string _ | table _ =>
                have hp : h.Passes .newIndex key (.table t) _ :=
                  ⟨he, hf, Value.noConfusion, fun _ => Value.noConfusion⟩
                rcases ih _ with hlong | ⟨n, r, hr, hn⟩
                · exact .inl ((hp.findNewIndex_eq limit).trans hlong)
                · exact .inr ⟨n + 1, r, .next hp hr, Nat.succ_le_succ hn⟩
          · exact .inr ⟨1, _, .entry he, Nat.succ_pos limit⟩
      | nil | boolean _ | number _ | string _ | function _ =>
          exact .inr ⟨1, _, .refused rfl, Nat.succ_pos limit⟩

/-- Writing comes to one thing only, over one number of receivers. -/
theorem Writes.unique {n' : Nat} {r' : Writing} (hr : h.Writes key v n r)
    (hr' : h.Writes key v n' r') : n = n' ∧ r = r' := by
  -- Were the numbers different, one walk would both find something and be too long.
  have hle : ∀ {n n' r r'}, h.Writes key v n r → h.Writes key v n' r' → n' ≤ n := by
    intro n n' r r' hr hr'
    refine Nat.le_of_not_lt fun hlt => Writing.found_ne_tooLong r ?_
    have heq := (hr.findNewIndex_eq n).symm.trans (hr'.findNewIndex_eq n)
    rwa [if_pos (Nat.le_refl n), if_neg (Nat.not_le.2 hlt)] at heq
  obtain rfl : n = n' := Nat.le_antisymm (hle hr' hr) (hle hr hr')
  have heq := (hr.findNewIndex_eq n).symm.trans (hr'.findNewIndex_eq n)
  rw [if_pos (Nat.le_refl n), if_pos (Nat.le_refl n)] at heq
  exact ⟨rfl, Writing.found_injective heq⟩

end Heap

/-! ### Writes of a run -/

/-- A raw write succeeds where the table takes the value, and changes the heap alone. -/
theorem Action.rawSet_eq_ok_iff {t : TableId} {key v : Value} {m m' : Machine} :
    Action.rawSet t key v m = (.ok (), m') ↔
      ∃ contents, (m.heap.get t).rawSet key v = .ok contents ∧
        m' = { m with heap := m.heap.set t contents } := by
  constructor
  · intro h
    cases hset : (m.heap.get t).rawSet key v with
    | ok contents =>
        rw [Action.rawSet_of_ok hset] at h
        cases h
        exact ⟨contents, rfl, rfl⟩
    | error f =>
        have htable : Action.table t m = (.ok (m.heap.get t), m) := rfl
        rw [Action.rawSet, Action.bind_of_ok _ htable, hset] at h
        cases h
  · rintro ⟨contents, hset, rfl⟩
    exact Action.rawSet_of_ok hset

/-- How a write ends. -/
def Writing.outcome (E : Engine) (key v : Value) (m : Machine) :
    Writing → Except Halt Unit × Machine
  | .stores t => Action.rawSet t key v m.configured
  | .refuses r => (.error (.error (.ofFault (.notIndexable r.kind))), m.configured)
  | .calls f t =>
    E.callNone (.function f) [.table t, key, v]
      (m.configured.noting (.callingHandler .newIndex key))

namespace Engine

variable (E : Engine) {m : Machine} {receiver key v : Value}

/-- A write that visits no more receivers than there may be ends with what it comes to. -/
theorem setIndex_of_writes {n : Nat} {r : Writing} (hr : m.heap.Writes key receiver n r)
    (hn : n ≤ m.limits.maxMetaChain) : E.setIndex receiver key v m = r.outcome E key v m := by
  rw [setIndex_apply, hr.findNewIndex_eq, if_pos hn]
  cases r with
  | stores t => rfl
  | refuses r => rfl
  | calls f t => rfl

/-- A write fails if its walk is too long. -/
theorem setIndex_of_tooLong
    (h : m.heap.findNewIndex key m.limits.maxMetaChain receiver = .tooLong) :
    E.setIndex receiver key v m = m.chainTooLong .newIndex := by
  rw [setIndex_apply, h]
  rfl

/-- A write that succeeds has called a function, or stored the value. -/
theorem setIndex_ok_cases {m' : Machine} (h : E.setIndex receiver key v m = (.ok (), m')) :
    (∃ n f t, m.heap.Writes key receiver n (.calls f t)) ∨
    ∃ n t contents, m.heap.Writes key receiver n (.stores t) ∧ n ≤ m.limits.maxMetaChain ∧
      (m.heap.get t).rawSet key v = .ok contents ∧
      m' = { m.configured with heap := m.heap.set t contents } := by
  rcases m.heap.findNewIndex_eq_tooLong_or_writes key m.limits.maxMetaChain receiver with
    hlong | ⟨n, r, hr, hn⟩
  · cases (E.setIndex_of_tooLong hlong).symm.trans h
  · have hend := (E.setIndex_of_writes hr hn).symm.trans h
    cases r with
    | stores t =>
        obtain ⟨contents, hset, hm'⟩ := Action.rawSet_eq_ok_iff.1 hend
        exact .inr ⟨n, t, contents, hr, hn, hset, hm'⟩
    | refuses r => cases hend
    | calls f t => exact .inl ⟨n, f, t, hr⟩

/-- Two engines that run a function alike leave the same machine behind its call. -/
theorem callNone_congr {E E' : Engine} {f : Closure} {args : List Value} {m : Machine}
    (h : E'.apply .called f args (m.entered m.log) = E.apply .called f args (m.entered m.log)) :
    E'.callNone (.function f) args m = E.callNone (.function f) args m := by
  unfold callNone
  simp only [Bind.bind, invoke_congr h]

end Engine

/-! ### What a write does to the heap -/

/-- One entry of one table is another one, and everything else is the same. -/
structure Heap.EntryChanged (h h' : Heap) (t : TableId) (key v : Value) : Prop where
  /-- Keys that are raw-equal to the one of the entry read the value, and all others what
  they did. -/
  entries : ∀ k, (h'.get t).rawGet k = if key.rawEqual k then v else (h.get t).rawGet k
  metatable : (h'.get t).metatable = (h.get t).metatable
  others : ∀ u, u ≠ t → h'.get u = h.get u

/-- A raw write changes one entry. -/
theorem Heap.Grown.entryChanged_set {h : Heap} (hg : h.Grown) {t : TableId} {key v : Value}
    {contents : Table} (hset : (h.get t).rawSet key v = .ok contents) :
    h.EntryChanged (h.set t contents) t key v := by
  have hget := h.get_set t t contents
  rw [if_pos rfl] at hget
  refine ⟨fun k => ?_, ?_, fun u hu => (h.get_set t u contents).trans (if_neg hu)⟩
  · rw [hget]
    exact hg.rawGet_rawSet hset k
  · rw [hget]
    exact (Table.rawSet_frame hset).1

/-- Why a write fails by itself. -/
inductive Heap.WriteFault (h : Heap) (limit : Nat) (receiver key : Value) : Fault → Prop where
  /-- There is a receiver that is no table. -/
  | refused {n : Nat} {r : Value} (hr : h.Writes key receiver n (.refuses r)) (hn : n ≤ limit) :
      WriteFault h limit receiver key (.notIndexable r.kind)
  /-- There are more receivers than the limit allows. -/
  | tooLong (hlong : ∀ n r, h.Writes key receiver n r → limit < n) :
      WriteFault h limit receiver key (.chainTooLong .newIndex)
  /-- There is a table to write to, but nil is no key. -/
  | keyIsNil {n : Nat} {t : TableId} (hr : h.Writes key receiver n (.stores t)) (hn : n ≤ limit)
      (hk : key = .nil) : WriteFault h limit receiver key .keyIsNil
  /-- There is a table to write to, but a NaN is no key. -/
  | keyIsNaN {n : Nat} {t : TableId} {x : Binary64} (hr : h.Writes key receiver n (.stores t))
      (hn : n ≤ limit) (hk : key = .number x) (hx : x.isNaN = true) :
      WriteFault h limit receiver key .keyIsNaN

/-- Where the walk comes to a table or to a function within the limit, a write under a key does not
fail by itself. -/
theorem Heap.Writes.not_writeFault {h : Heap} {limit n : Nat} {receiver key : Value} {r : Writing}
    {fault : Fault} (hr : h.Writes key receiver n r) (hn : n ≤ limit) (hends : ∀ v, r ≠ .refuses v)
    (hk : key.isKey = true) : ¬ h.WriteFault limit receiver key fault := by
  intro hfault
  cases hfault with
  | refused hr' _ => exact hends _ (hr.unique hr').2
  | tooLong hlong => exact absurd hn (Nat.not_le.2 (hlong n r hr))
  | keyIsNil _ _ hnil =>
      rw [hnil] at hk
      cases hk
  | keyIsNaN _ _ hnumber hx =>
      rw [hnumber, Value.isKey, hx] at hk
      cases hk

namespace Engine

variable (E : Engine) (m : Machine) (receiver key v : Value)

/-- A write stores the value in a table: it is the raw write there, and changes this entry alone. -/
structure WritesEntry (t : TableId) : Prop where
  rawSet : E.setIndex receiver key v m = Action.rawSet t key v m.configured
  changed : ∃ h', E.setIndex receiver key v m = (.ok (), { m.configured with heap := h' }) ∧
    m.heap.EntryChanged h' t key v

/-- A write is one call of a handler, for a table. -/
structure WritesByCall (f : Closure) (t : TableId) : Prop where
  call : E.setIndex receiver key v m = E.callNone (.function f) [.table t, key, v]
    (m.configured.noting (.callingHandler .newIndex key))
  /-- No other function runs, and this one runs once: it only matters what the handler
  does there. -/
  once : ∀ E' : Engine,
    E'.apply .called f [.table t, key, v] (m.entered (.callingHandler .newIndex key :: m.log)) =
      E.apply .called f [.table t, key, v] (m.entered (.callingHandler .newIndex key :: m.log)) →
    E'.setIndex receiver key v m = E.setIndex receiver key v m

/-- A write fails, with an error that can be caught, and changes nothing but the log. -/
def WriteFails : Prop :=
  ∃ fault log, m.heap.WriteFault m.limits.maxMetaChain receiver key fault ∧
    (Error.ofFault fault).isRecoverable = true ∧
    E.setIndex receiver key v m = (.error (.error (.ofFault fault)), { m.configured with log })

variable {m receiver key v}

/-- A write that comes to a function calls it, and it alone. -/
theorem writesByCall {n : Nat} {f : Closure} {t : TableId}
    (hr : m.heap.Writes key receiver n (.calls f t)) (hn : n ≤ m.limits.maxMetaChain) :
    E.WritesByCall m receiver key v f t where
  call := E.setIndex_of_writes hr hn
  once E' h := by
    rw [E'.setIndex_of_writes hr hn, E.setIndex_of_writes hr hn]
    exact callNone_congr h

/-- A raw write under a key succeeds, and changes this entry alone. -/
theorem writesEntry (hg : m.heap.Grown) {n : Nat} {t : TableId}
    (hr : m.heap.Writes key receiver n (.stores t)) (hn : n ≤ m.limits.maxMetaChain)
    (hk : key.isKey = true) : E.WritesEntry m receiver key v t := by
  have hend : E.setIndex receiver key v m = Action.rawSet t key v m.configured :=
    E.setIndex_of_writes hr hn
  obtain ⟨contents, hset⟩ := (m.heap.get t).rawSet_of_isKey v hk
  have hraw := Action.rawSet_of_ok (m := m.configured) hset
  exact ⟨hend, m.heap.set t contents, hend.trans hraw, hg.entryChanged_set hset⟩

/-- A raw write under what is no key fails. -/
theorem writeFails_of_not_isKey {n : Nat} {t : TableId}
    (hr : m.heap.Writes key receiver n (.stores t)) (hn : n ≤ m.limits.maxMetaChain)
    (hk : key.isKey = false) : E.WriteFails m receiver key v := by
  have hend := E.setIndex_of_writes (v := v) hr hn
  cases key with
  | nil => exact ⟨.keyIsNil, m.log, .keyIsNil hr hn rfl, rfl, hend⟩
  | number x =>
      have hx : x.isNaN = true := by simpa [Value.isKey] using hk
      refine ⟨.keyIsNaN, m.log, .keyIsNaN hr hn rfl hx, rfl, hend.trans ?_⟩
      simp only [Writing.outcome, Action.rawSet, Bind.bind, Action.table, Table.rawSet, Value.key?,
        hx, if_true]
      rfl
  | boolean _ | string _ | table _ | function _ => cases hk

end Engine

/-- **A write changes one entry, makes one call, or changes nothing.**  If the recursion ends at a
table within the limit, a write under a key is a raw write to this table, and changes no other
entry, no other table, no metatable, and nothing else of the machine but that it has its
configuration.  If it ends at a function, a write is one call of this function with the table, the
key and the value.  In all other cases it fails with an error that can be caught, and the heap is as
before.  The recursion ends in one way only. -/
theorem setIndex_frame (E : Engine) (m : Machine) (hg : m.heap.Grown) (receiver key v : Value) :
    ((∃ n t, m.heap.Writes key receiver n (.stores t) ∧ n ≤ m.limits.maxMetaChain ∧
        key.isKey = true ∧ E.WritesEntry m receiver key v t) ∨
      (∃ n f t, m.heap.Writes key receiver n (.calls f t) ∧ n ≤ m.limits.maxMetaChain ∧
        E.WritesByCall m receiver key v f t) ∨
      E.WriteFails m receiver key v) ∧
    ∀ n r n' r', m.heap.Writes key receiver n r → m.heap.Writes key receiver n' r' →
      n = n' ∧ r = r' := by
  refine ⟨?_, fun n r n' r' => Heap.Writes.unique⟩
  rcases m.heap.findNewIndex_eq_tooLong_or_writes key m.limits.maxMetaChain receiver with
    hlong | ⟨n, r, hr, hn⟩
  · have hmore : ∀ n r, m.heap.Writes key receiver n r → m.limits.maxMetaChain < n := by
      intro n r hr
      refine Nat.lt_of_not_le fun hn => r.found_ne_tooLong ?_
      rw [← hlong, hr.findNewIndex_eq, if_pos hn]
    exact .inr (.inr ⟨_, _, .tooLong hmore, rfl, E.setIndex_of_tooLong hlong⟩)
  · cases r with
    | stores t =>
        cases hk : key.isKey with
        | true => exact .inl ⟨n, t, hr, hn, rfl, E.writesEntry hg hr hn hk⟩
        | false => exact .inr (.inr (E.writeFails_of_not_isKey hr hn hk))
    | refuses r => exact .inr (.inr ⟨_, _, .refused hr hn, rfl, E.setIndex_of_writes hr hn⟩)
    | calls f t => exact .inr (.inl ⟨n, f, t, hr, hn, E.writesByCall hr hn⟩)

/-- A heap with a proxy: table `1` has a metatable, table `2`, whose handler for reads and for
writes is table `3`, which has no entries. -/
def Heap.mirrored : Heap :=
  ⟨#[Table.empty, Table.empty.setMetatable (some ⟨2⟩),
    Table.ofHistory
      [.set (.string "__index") (.table ⟨3⟩), .set (.string "__newindex") (.table ⟨3⟩)],
    Table.empty]⟩

theorem Heap.grown_mirrored : Heap.mirrored.Grown := by
  rintro ⟨i⟩
  match i with
  | 0 | 3 => exact ⟨[], rfl⟩
  | 1 => exact ⟨[.setMetatable (some ⟨2⟩)], rfl⟩
  | 2 => exact ⟨_, rfl⟩
  | i + 4 => exact ⟨[], rfl⟩

/-- A write to the first table comes to a raw write to the third one. -/
theorem Heap.writes_mirrored : Heap.mirrored.Writes (.string "x") (.table ⟨1⟩) 2 (.stores ⟨3⟩) :=
  .next ⟨by decide, by decide, Value.noConfusion, fun _ => Value.noConfusion⟩
    (.absent (by decide) (by decide))

theorem Heap.grown_handled : Heap.handled.Grown := by
  rintro ⟨i⟩
  match i with
  | 0 => exact ⟨[], rfl⟩
  | 1 => exact ⟨[.setMetatable (some ⟨2⟩)], rfl⟩
  | 2 | 4 => exact ⟨_, rfl⟩
  | 3 => exact ⟨[.setMetatable (some ⟨4⟩)], rfl⟩
  | i + 5 => exact ⟨[], rfl⟩

/-- A write to the first table comes to a call of the function, on the third one. -/
theorem Heap.writes_handled :
    Heap.handled.Writes (.string "x") (.table ⟨1⟩) 2 (.calls echo ⟨3⟩) :=
  .next ⟨by decide, by decide, Value.noConfusion, fun _ => Value.noConfusion⟩
    (.handler (by decide) (by decide))

/-- A write to the proxy changes one entry of the table behind it.  Where there is a function for a
handler, it is called once, with the table that has it, the key and the value. -/
theorem mirrored_writes_behind :
    (Heap.mirrored.Grown ∧
      Engine.idle.WritesEntry { heap := Heap.mirrored } (.table ⟨1⟩) (.string "x") (.boolean true)
        ⟨3⟩) ∧
    Heap.handled.Grown ∧
      Engine.echoing.WritesByCall (.handled 2) (.table ⟨1⟩) (.string "x") (.boolean true) echo ⟨3⟩ ∧
      ∃ m', Engine.echoing.setIndex (.table ⟨1⟩) (.string "x") (.boolean true) (.handled 2) =
          (.ok (), m') ∧
        m'.trace = [⟨"echo", [.table ⟨3⟩, .string "x", .boolean true], 1⟩] := by
  refine ⟨⟨Heap.grown_mirrored, ?_⟩, Heap.grown_handled, ?_⟩
  · obtain ⟨⟨n, t, hr, -, -, hwrites⟩ | ⟨n, f, t, hr, -, -⟩ | ⟨fault, log, hfault, -, -⟩,
        hunique⟩ :=
      setIndex_frame Engine.idle { heap := Heap.mirrored } Heap.grown_mirrored (.table ⟨1⟩)
        (.string "x") (.boolean true)
    · cases (hunique _ _ _ _ hr Heap.writes_mirrored).2
      exact hwrites
    · cases (hunique _ _ _ _ hr Heap.writes_mirrored).2
    · exact absurd hfault (Heap.writes_mirrored.not_writeFault (by decide) (fun _ => nofun) rfl)
  · obtain ⟨⟨n, t, hr, -, -, -⟩ | ⟨n, f, t, hr, -, hcall⟩ | ⟨fault, log, hfault, -, -⟩, hunique⟩ :=
      setIndex_frame Engine.echoing (.handled 2) Heap.grown_handled (.table ⟨1⟩) (.string "x")
        (.boolean true)
    · cases (hunique _ _ _ _ hr Heap.writes_handled).2
    · cases (hunique _ _ _ _ hr Heap.writes_handled).2
      exact ⟨hcall, _, hcall.call, rfl⟩
    · exact absurd hfault (Heap.writes_handled.not_writeFault (by decide) (fun _ => nofun) rfl)

end LuaKernel
