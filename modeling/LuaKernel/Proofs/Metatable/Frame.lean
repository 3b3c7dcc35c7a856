import LuaKernel.Proofs.Run.Congruence
import LuaKernel.Proofs.Table.Representation
import Mathlib.Order.Defs.Unbundled

/-!
# What writes leave as it was

A raw write changes one entry of one table: the metatable of the table stays, and so do its entries
at all other strings (`Table.rawSet_frame`).

What an action may do to the heap is said by a relation between the heap before and the heap after
(`Action.Within`).  If this is a preorder, actions may be done one after the other, and only few
actions are of interest (`Tame.within`).  A list is stored by raw writes at integers, so a relation
that allows these allows to store lists (`Action.Within.setList`).

An expression writes only to tables that it makes.  So its evaluation changes no table that was
there before (`Expr.sameBelow_eval`): the tables of a heap are numbered as they are made, and a
bound on the numbers that the heap has reached tells the old tables from the new ones.
-/

namespace LuaKernel

/-! ### Tables -/

namespace Table

variable {t t' : Table}

/-- A write to the hash part keeps the metatable, and all entries at strings but that of its key. -/
theorem hashSet_frame (t : Table) (k : Key) (v : Value) :
    (t.hashSet k v).metatable = t.metatable ∧
      ∀ s, (t.hashSet k v).rawGetString s = if k = .string s then v else t.rawGetString s := by
  constructor
  · unfold hashSet
    split <;> rfl
  · intro s
    simp only [rawGetString, hashGet, get?_hashSet, eq_comm (a := Key.string s)]
    by_cases hk : k = .string s
    · cases v <;> simp [hk]
    · simp [hk]

/-- Values that are moved to the array part, and numbers that are erased from the hash part. -/
theorem rawGetString_eraseNumber (t : Table) (a : Array Value) (x : Binary64) (s : String) :
    rawGetString { t with array := a, hash := t.hash.erase (.ofNumber x) } s =
      t.rawGetString s := by
  have hne : Key.string s ≠ .ofNumber x := nofun
  simp only [rawGetString, hashGet, Assoc.get?_erase, hne, if_false]

/-- Migration moves numbers only, so it keeps the metatable and all entries at strings. -/
theorem migrateSteps_frame (n : Nat) (t : Table) :
    (migrateSteps n t).metatable = t.metatable ∧
      ∀ s, (migrateSteps n t).rawGetString s = t.rawGetString s :=
  migrateSteps_induction
    (P := fun u => u.metatable = t.metatable ∧ ∀ s, u.rawGetString s = t.rawGetString s)
    (fun u _ h _ => ⟨h.1, fun s => (u.rawGetString_eraseNumber _ _ s).trans (h.2 s)⟩) n
    ⟨rfl, fun _ => rfl⟩

/-- A write at a number changes no entry at a string. -/
theorem storeNumber_frame (t : Table) (x : Binary64) (slot : Option Nat) (v : Value) :
    (t.store (.ofNumber x) slot v).metatable = t.metatable ∧
      ∀ s, (t.store (.ofNumber x) slot v).rawGetString s = t.rawGetString s := by
  have hhash := t.hashSet_frame (.ofNumber x) v
  unfold store
  split
  · split
    · exact ⟨rfl, fun _ => rfl⟩
    · split
      · obtain ⟨hmetatable, hstring⟩ := migrateSteps_frame _ _
        exact ⟨hmetatable, fun s => (hstring s).trans (t.rawGetString_eraseNumber _ x s)⟩
      · exact hhash
  · exact hhash

/-- A raw write keeps the metatable, and all entries at strings but the one that it writes to. -/
theorem rawSet_frame {key v : Value} (h : t.rawSet key v = .ok t') :
    t'.metatable = t.metatable ∧
      ∀ s, t'.rawGetString s = if key = .string s then v else t.rawGetString s := by
  cases key with
  | nil => cases h
  | number x =>
      simp only [rawSet, Value.key?] at h
      split at h
      · next k hk =>
          cases h
          split at hk
          · cases hk
          · cases hk
            exact t.storeNumber_frame x _ v
      · cases h
  | string s | boolean _ | table _ | function _ =>
      cases h
      obtain ⟨hmetatable, hstring⟩ := t.hashSet_frame _ v
      refine ⟨hmetatable, fun s => (hstring s).trans ?_⟩
      simp

end Table

/-! ### Actions -/

/-- Changes the heap only as a relation between heaps allows. -/
def Action.Within (ρ : Heap → Heap → Prop) {α : Type} (x : Action α) : Prop :=
  ∀ m, ρ m.heap (x m).2.heap

namespace Action.Within

variable {ρ : Heap → Heap → Prop} [IsPreorder Heap ρ] {α β : Type}

/-- An action that leaves the heap as it was stays within every relation between heaps that is
reflexive. -/
theorem of_heap_eq {x : Action α} (h : ∀ m, (x m).2.heap = m.heap) : x.Within ρ := by
  intro m
  rw [h m]
  exact refl_of ρ m.heap

theorem pure (a : α) : Within ρ (Pure.pure a : Action α) := of_heap_eq fun _ => rfl

/-- Two actions in a row stay within a relation that is transitive. -/
theorem bind {x : Action α} {f : α → Action β} (hx : x.Within ρ) (hf : ∀ a, (f a).Within ρ) :
    (x >>= f).Within ρ :=
  bind_leads (ρ := fun m m' => ρ m.heap m'.heap) (trans_of ρ) hx hf

theorem ofExcept (r : Except Fault α) : (Action.ofExcept r).Within ρ := by
  cases r with
  | ok a => exact .pure a
  | error f => exact of_heap_eq fun _ => rfl

theorem table (t : TableId) : (table t).Within ρ := of_heap_eq fun _ => rfl

theorem advance (counter : Int64) : (advance counter).Within ρ :=
  of_heap_eq fun m => congrArg Machine.heap (advance_snd counter m)

/-- A list is stored in a table by raw writes at integers. -/
theorem storeFrom {t : TableId} (h : ∀ i v, (rawSet t (.ofInt i) v).Within ρ) (counter : Int64)
    (vs : List Value) : (storeFrom t counter vs).Within ρ := by
  induction vs generalizing counter with
  | nil => exact .bind (.advance counter) fun _ => .pure ()
  | cons v vs ih => exact .bind (.advance counter) fun _ => .bind (h _ v) fun _ => ih _

/-- To store a list is to check its target, and then to do raw writes at integers. -/
theorem setList (h : ∀ t i v, (rawSet t (.ofInt i) v).Within ρ) (target : Value) (start : Int64)
    (vs : List Value) : (setList target start vs).Within ρ :=
  .bind (.ofExcept _) fun t => .storeFrom (h t) start vs

theorem noticeDropped (dropped : Option String) : (noticeDropped dropped).Within ρ := by
  cases dropped with
  | none => exact of_heap_eq fun _ => rfl
  | some s => exact of_heap_eq fun _ => rfl

/-- To ask for the bytes of a string changes the cache and the log, but not the heap. -/
theorem bytes (s : String) : (bytes s).Within ρ :=
  .bind (of_heap_eq fun _ => rfl) fun _ => .bind (.noticeDropped _) fun _ => .pure _

theorem configure (c : Config) : (configure c).Within ρ :=
  of_heap_eq fun m => by rw [configure_snd]

/-- To print changes an outlet, but not the heap. -/
theorem print (o : Outlet) (bytes : List UInt8) : (print o bytes).Within ρ := by
  refine of_heap_eq fun m => ?_
  obtain ⟨sink, console, hprint⟩ := print_snd o bytes m
  rw [hprint]

/-- A path is read by looking at tables, which changes none of them. -/
theorem rawPath (v : Value) (path : List String) : (rawPath v path).Within ρ := by
  induction path generalizing v with
  | nil => exact .pure v
  | cons k ks ih =>
      cases v with
      | table t => exact .bind (.table t) fun _ => ih _
      | nil | boolean _ | number _ | string _ | function _ => exact .pure _

end Action.Within

/-- Of the actions that are tame, three change the heap: one makes a table, one stores a list, by
raw writes at integers, and one replaces a metatable. -/
theorem Tame.within {ρ : Heap → Heap → Prop} [IsPreorder Heap ρ] {α : Type} {x : Action α}
    (h : Tame x) (hnew : Action.newTable.Within ρ)
    (hwrite : ∀ t i v, (Action.rawSet t (.ofInt i) v).Within ρ)
    (hreplace : ∀ v w, (Action.replaceMetatable v w).Within ρ) : x.Within ρ := by
  cases h with
  | newTable => exact hnew
  | setList v start vs => exact .setList hwrite v start vs
  | replaceMetatable v w => exact hreplace v w
  | configure c => exact .configure c
  | bytes s => exact .bytes s
  | print o bytes => exact .print o bytes
  | pure | raise | config | isConfigured | heap | table | newFunction | notice | callDepth
    | recordStart | register | setRegister => exact .of_heap_eq fun _ => rfl

/-! ### Expressions -/

/-- A heap does not shrink when a table of it is replaced. -/
theorem Heap.size_le_set (h : Heap) (t : TableId) (contents : Table) :
    h.tables.size ≤ (h.set t contents).tables.size := by
  simp [set, padded]

/-- A heap does not shrink when a table is made. -/
theorem Heap.size_le_alloc (h : Heap) : h.tables.size ≤ h.alloc.2.tables.size := by
  simp [alloc]

/-- Two heaps with the same tables below a bound, if the first reaches up to it. -/
def Heap.SameBelow (n : Nat) (h h' : Heap) : Prop :=
  n ≤ h.tables.size → n ≤ h'.tables.size ∧ ∀ t, t.index < n → h'.get t = h.get t

instance (n : Nat) : IsPreorder Heap (Heap.SameBelow n) where
  refl _ hn := ⟨hn, fun _ _ => rfl⟩
  trans _ _ _ h₁ h₂ hn :=
    ⟨(h₂ (h₁ hn).1).1, fun t ht => ((h₂ (h₁ hn).1).2 t ht).trans ((h₁ hn).2 t ht)⟩

section

open LuaKernel.Action

variable {n : Nat} {β : Type} {t : TableId}

/-- A new table is not below the bound. -/
theorem sameBelow_newTable_bind {f : TableId → Action β}
    (hf : ∀ t, n ≤ t.index → (f t).Within (Heap.SameBelow n)) :
    (newTable >>= f).Within (Heap.SameBelow n) := by
  intro m hm
  have hnew : newTable m = (.ok m.heap.alloc.1, { m with heap := m.heap.alloc.2 }) := rfl
  rw [bind_of_ok f hnew]
  have hm' : n ≤ m.heap.alloc.2.tables.size := Nat.le_trans hm m.heap.size_le_alloc
  obtain ⟨hsize, hget⟩ := hf m.heap.alloc.1 hm { m with heap := m.heap.alloc.2 } hm'
  exact ⟨hsize, fun t ht => (hget t ht).trans (m.heap.get_alloc t)⟩

/-- To replace a table that is not below the bound changes no table that is. -/
theorem sameBelow_putTable (ht : n ≤ t.index) (contents : Table) :
    (putTable t contents).Within (Heap.SameBelow n) := by
  intro m hm
  refine ⟨Nat.le_trans hm (m.heap.size_le_set t contents), fun u hu => ?_⟩
  have hne : u ≠ t := by
    rintro rfl
    exact Nat.lt_irrefl _ (Nat.lt_of_lt_of_le hu ht)
  exact (m.heap.get_set t u contents).trans (if_neg hne)

/-- A raw write to a table that is not below the bound changes no table that is. -/
theorem sameBelow_rawSet (ht : n ≤ t.index) (k v : Value) :
    (rawSet t k v).Within (Heap.SameBelow n) :=
  .bind (.table t) fun _ => .bind (.ofExcept _) fun _ => sameBelow_putTable ht _

theorem sameBelow_setList (ht : n ≤ t.index) (start : Int64) (vs : List Value) :
    (setList (.table t) start vs).Within (Heap.SameBelow n) :=
  Within.storeFrom (fun i v => sameBelow_rawSet ht (.ofInt i) v) start vs

/-- To attach a metatable to a table that is not below the bound changes no table that is. -/
theorem sameBelow_attachMetatable (ht : n ≤ t.index) (m : Option TableId) :
    (attachMetatable t m).Within (Heap.SameBelow n) :=
  .bind (.table t) fun _ => sameBelow_putTable ht _

end

open Action.Within in
mutual

/-- An expression changes no table that was there before. -/
theorem Expr.sameBelow_eval (n : Nat) (args : List Value) :
    ∀ e : Expr, (e.eval args).Within (Heap.SameBelow n)
  | .nil | .boolean _ | .number _ | .string _ | .argument _ | .argumentCount | .stringMetatable =>
      .pure _
  | .register _ => of_heap_eq fun _ => rfl
  | .global path => .bind (of_heap_eq fun _ => rfl) fun _ => rawPath _ path
  | .list items =>
      .bind (sameBelow_evalAll n args items) fun _ => sameBelow_newTable_bind fun _ ht =>
        .bind (sameBelow_setList ht 1 _) fun _ => .pure _
  | .table entries metatable =>
      sameBelow_newTable_bind fun t ht => .bind (sameBelow_fill n args t ht entries) fun _ =>
        .bind (Expr.sameBelow_eval n args metatable) fun _ =>
          .bind (sameBelow_attachMetatable ht _) fun _ => .pure _
  | .function _ _ => .bind (of_heap_eq fun _ => rfl) fun _ => .pure _

/-- Expressions that are evaluated one after the other change no table that was there before. -/
theorem sameBelow_evalAll (n : Nat) (args : List Value) :
    ∀ es : List Expr, (evalAll args es).Within (Heap.SameBelow n)
  | [] => .pure _
  | e :: es =>
      .bind (Expr.sameBelow_eval n args e) fun _ => .bind (sameBelow_evalAll n args es) fun _ =>
        .pure _

/-- To fill a new table writes to no table that was there before. -/
theorem sameBelow_fill (n : Nat) (args : List Value) (t : TableId) (ht : n ≤ t.index) :
    ∀ es : List Entry, (fill args t es).Within (Heap.SameBelow n)
  | [] => .pure _
  | .mk key value :: rest =>
      .bind (Expr.sameBelow_eval n args key) fun _ =>
        .bind (Expr.sameBelow_eval n args value) fun _ =>
          .bind (sameBelow_rawSet ht _ _) fun _ => sameBelow_fill n args t ht rest

end

end LuaKernel
