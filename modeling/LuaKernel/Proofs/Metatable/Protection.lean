import LuaKernel.Proofs.Access.Hops
import LuaKernel.Proofs.Run.Heaps

/-!
# Protected metatables

A table whose metatable has a `__metatable` entry keeps it through every run
(`protected_metatable_stays`): at every point of the run the table has the same metatable, each
attempt to replace it fails with a runtime error and changes nothing, and a program that asks for it
is given the entry.

This holds as long as nothing takes the entry away.  Only three things can do so: a raw write, a
write that comes to a table, and the library function for raw writes.  A supervision can stop a run
right before such a write (`stopping`), so a run in which there is none is one that is not stopped,
with whatever error (`Program.Spares`).

A protected metatable is a matter of two tables of the heap (`Heap.Guards`), and every action that
writes to a table leaves it alone for its own reason: expressions write to new tables only, a list
goes to integer keys, environments store no nil, and to replace a metatable is refused.  So the
relation between actions that do the same where a metatable is protected, and leave it so
(`SameGuarded`), is kept by all operations.
-/

namespace LuaKernel

/-! ### Heaps -/

/-- In a heap, a table has a metatable that is protected. -/
structure Heap.Guards (h : Heap) (t m : TableId) : Prop where
  attached : (h.get t).metatable = some m
  locked : (h.get m).rawGetString Metafield.metatable.key ≠ .nil

namespace Heap

variable {h h' : Heap} {t m u : TableId} {contents : Table}

/-- Only tables that were made have a metatable or an entry. -/
theorem index_lt_of_get_ne_empty (ht : h.get t ≠ .empty) : t.index < h.tables.size := by
  by_contra hge
  exact ht (by simp [get, Array.getD, hge])

/-- Protection lasts as long as the tables that are there keep their contents. -/
theorem Guards.of_get_eq (hg : h.Guards t m)
    (heq : ∀ v, v.index < h.tables.size → h'.get v = h.get v) : h'.Guards t m := by
  -- A table that was never made has neither a metatable nor an entry.
  have ht : t.index < h.tables.size := index_lt_of_get_ne_empty fun hempty => by
    have hattached := hg.attached
    rw [hempty] at hattached
    cases hattached
  have hm : m.index < h.tables.size := index_lt_of_get_ne_empty fun hempty => by
    have hlocked := hg.locked
    rw [hempty] at hlocked
    exact hlocked rfl
  exact ⟨(heq t ht).symm ▸ hg.attached, (heq m hm).symm ▸ hg.locked⟩

/-- A table may be given other contents that leave the metatable and its entry alone. -/
theorem Guards.set (hg : h.Guards t m) (hattached : u = t → contents.metatable = some m)
    (hlocked : u = m → contents.rawGetString Metafield.metatable.key ≠ .nil) :
    (h.set u contents).Guards t m where
  attached := by
    rw [get_set]
    split
    · next heq => exact hattached heq.symm
    · exact hg.attached
  locked := by
    rw [get_set]
    split
    · next heq => exact hlocked heq.symm
    · exact hg.locked

/-- A new table takes no protection away. -/
theorem Guards.alloc (hg : h.Guards t m) : h.alloc.2.Guards t m :=
  hg.of_get_eq fun v _ => h.get_alloc v

/-- The field that protects a table is the one that its metatable has itself. -/
theorem Guards.metafield_eq (hg : h.Guards t m) :
    h.metafield (.table t) .metatable = (h.get m).rawGetString Metafield.metatable.key := by
  simp only [metafield, metatableOf, hg.attached]

/-- The metatable of a table that is protected is not replaced. -/
theorem Guards.setMetatable_fails (hg : h.Guards t m) (v : Value) :
    ∃ f, h.setMetatable (.table t) v = .error f := by
  have hentry : (h.metafield (.table t) .metatable).isNil = false := by
    rw [hg.metafield_eq]
    exact Value.isNil_eq_false hg.locked
  unfold setMetatable
  split
  · exact ⟨_, rfl⟩
  · rw [hentry]
    exact ⟨_, rfl⟩

/-- What replaces a metatable leaves a protected one alone. -/
theorem Guards.of_setMetatable (hg : h.Guards t m) {target v : Value}
    (hset : h.setMetatable target v = .ok h') : h'.Guards t m := by
  by_cases htarget : target = .table t
  · obtain ⟨f, hf⟩ := hg.setMetatable_fails v
    rw [htarget, hf] at hset
    cases hset
  · unfold setMetatable at hset
    split at hset
    · cases hset
    · split at hset
      · split at hset
        · next u =>
            cases hset
            refine hg.set (fun hu => absurd (hu ▸ rfl) htarget) ?_
            rintro rfl
            exact hg.locked
        · cases hset
      · cases hset

/-- What is shown of the metatable of a protected table is the field that protects it. -/
theorem Guards.getMetatable_eq (hg : h.Guards t m) :
    h.getMetatable (.table t) = (h.get m).rawGetString Metafield.metatable.key := by
  simp only [getMetatable, metatableOf, hg.attached, Value.isNil_eq_false hg.locked,
    Bool.false_eq_true, if_false]

end Heap

/-! ### Machines -/

/-- A machine on which a table has a protected metatable, as a program sees it: to replace the
metatable fails with a runtime error, and changes nothing, and to ask for it gives the entry that
protects it; by an operation and by a function of the library alike. -/
structure Machine.Shields (n : Machine) (t m : TableId) : Prop extends n.heap.Guards t m where
  setMetatable : ∀ E args, argument args 0 = .table t →
    ∃ v, Op.setMetatable.perform E args n = (.error (.error (.runtime v)), n)
  library_setmetatable : ∀ args, argument args 0 = .table t →
    ∃ v, Library.setmetatable args n = (.error (.error (.runtime v)), n)
  getMetatable : ∀ E args, argument args 0 = .table t →
    Op.getMetatable.perform E args n =
      (.ok (.one ((n.heap.get m).rawGetString Metafield.metatable.key)), n)
  library_getmetatable : ∀ args, argument args 0 = .table t →
    Library.getmetatable args n =
      (.ok (.single ((n.heap.get m).rawGetString Metafield.metatable.key)), n)

/-- To replace a metatable that is protected fails, and leaves the machine as it was. -/
theorem Heap.Guards.replaceMetatable {n : Machine} {t m : TableId} (hg : n.heap.Guards t m)
    (v : Value) :
    ∃ message, Action.replaceMetatable (.table t) v n =
      (.error (.error (.runtime message)), n) := by
  obtain ⟨f, hf⟩ := hg.setMetatable_fails v
  rw [Action.replaceMetatable, Action.bind_of_ok _ (Action.heap_apply _), hf]
  exact ⟨_, rfl⟩

/-- A protected metatable is protected from operations and from the library, and both show the entry
that protects it. -/
theorem Heap.Guards.shields {n : Machine} {t m : TableId} (hg : n.heap.Guards t m) :
    n.Shields t m where
  toGuards := hg
  setMetatable E args ht := by
    obtain ⟨message, hfails⟩ := hg.replaceMetatable (argument args 1)
    unfold Op.perform Op.act
    rw [ht]
    exact ⟨message, Action.bind_of_error _ hfails⟩
  library_setmetatable args ht := by
    obtain ⟨message, hfails⟩ := hg.replaceMetatable (argument args 1)
    have hcheck : Action.ofExcept (atArgument 1 "setmetatable" (Value.table t).checkTable) n =
        (.ok t, n) := rfl
    simp only [Library.setmetatable, ht]
    split
    · rw [Action.bind_of_ok _ hcheck]
      exact ⟨message, Action.bind_of_error _ hfails⟩
    · exact ⟨_, rfl⟩
  getMetatable E args ht := by
    unfold Op.perform Op.act
    rw [ht, ← hg.getMetatable_eq]
    rfl
  library_getmetatable args ht := by
    unfold Library.getmetatable
    rw [ht, ← hg.getMetatable_eq]
    rfl

/-! ### Actions -/

/-- The store of nil that takes the protection from a metatable: a table, a key and a value. -/
def unlocking (m : TableId) : TableId × Value × Value := (m, .string Metafield.metatable.key, .nil)

/-- What is protected in one heap is so in another. -/
def Heap.KeepsGuard (t m : TableId) (h h' : Heap) : Prop := h.Guards t m → h'.Guards t m

instance (t m : TableId) : IsPreorder Heap (Heap.KeepsGuard t m) where
  refl _ hg := hg
  trans _ _ _ h₁ h₂ hg := h₂ (h₁ hg)

section

variable {t m : TableId}

/-- A replacement keeps the guard: it fails at the table that has it, and does no harm at others. -/
theorem keepsGuard_replaceMetatable (v w : Value) :
    (Action.replaceMetatable v w).Within (Heap.KeepsGuard t m) := by
  intro n hn
  rw [Action.replaceMetatable, Action.bind_of_ok _ (Action.heap_apply _)]
  cases hset : n.heap.setMetatable v w with
  | error f => exact hn
  | ok h => exact hn.of_setMetatable hset

/-- A raw write keeps the guard, unless it is the one that takes it away. -/
theorem keepsGuard_rawSet {u : TableId} {k v : Value} (h : (u, k, v) ≠ unlocking m) :
    (Action.rawSet u k v).Within (Heap.KeepsGuard t m) := by
  intro n hn
  have htable : Action.table u n = (.ok (n.heap.get u), n) := rfl
  rw [Action.rawSet, Action.bind_of_ok _ htable]
  cases hset : (n.heap.get u).rawSet k v with
  | error f => exact hn
  | ok contents =>
      obtain ⟨hmetatable, hstring⟩ := Table.rawSet_frame hset
      refine hn.set ?_ ?_
      · rintro rfl
        exact hmetatable.trans hn.attached
      · rintro rfl
        rw [hstring]
        split
        · next hk =>
            rintro rfl
            exact h (by rw [hk]; rfl)
        · exact hn.locked

/-- An expression leaves all tables alone that a protected metatable is about. -/
theorem keepsGuard_eval (args : List Value) (e : Expr) :
    (e.eval args).Within (Heap.KeepsGuard t m) := by
  intro n hn
  exact hn.of_get_eq (e.sameBelow_eval _ args n (Nat.le_refl _)).2

/-- The tame actions keep the guard, whatever they do. -/
theorem Tame.keepsGuard {α : Type} {x : Action α} (h : Tame x) : x.Within (Heap.KeepsGuard t m) :=
  h.within (fun _ hn => hn.alloc) (fun _ _ _ => keepsGuard_rawSet nofun) keepsGuard_replaceMetatable

end

/-! ### Operations -/

/-- Two actions that do the same on a machine, and leave a protected metatable behind. -/
def SameGuardedOn (t m : TableId) (n : Machine) {α : Type} (x y : Action α) : Prop :=
  x n = y n ∧ (x n).2.heap.Guards t m

/-- Two actions that do the same where a metatable is protected, and leave it so. -/
def SameGuarded (t m : TableId) {α : Type} (x y : Action α) : Prop :=
  ∀ n, n.heap.Guards t m → SameGuardedOn t m n x y

/-- An action that keeps the guard is related to itself. -/
theorem Action.Within.sameGuarded {t m : TableId} {α : Type} {x : Action α}
    (h : x.Within (Heap.KeepsGuard t m)) : SameGuarded t m x x := fun n hn => ⟨rfl, h n hn⟩

/-- What comes behind an action begins on a machine that is still guarded. -/
theorem SameGuardedOn.bind {t m : TableId} {n : Machine} {α β : Type} {x y : Action α}
    {f g : α → Action β} (hx : SameGuardedOn t m n x y) (hf : ∀ a, SameGuarded t m (f a) (g a)) :
    SameGuardedOn t m n (x >>= f) (y >>= g) :=
  @SameKeeping.bind_apply (fun h => h.Guards t m) α β x y f g n hx hf

namespace SameGuarded

variable {t m : TableId} {α β : Type}

theorem bind {x y : Action α} {f g : α → Action β} (hx : SameGuarded t m x y)
    (hf : ∀ a, SameGuarded t m (f a) (g a)) : SameGuarded t m (x >>= f) (y >>= g) :=
  fun n hn => (hx n hn).bind hf

theorem raise (e : Error) : SameGuarded t m (Action.raise e : Action α) (.raise e) :=
  fun _ hn => ⟨rfl, hn⟩

theorem outOfFuel : SameGuarded t m (Action.outOfFuel : Action α) .outOfFuel :=
  fun _ hn => ⟨rfl, hn⟩

end SameGuarded

/-- To keep the guard is kept by the operations that do not force it. -/
theorem tameCongruence_sameGuarded (t m : TableId) : TameCongruence (SameGuarded t m) where
  bind := .bind
  tame h := h.keepsGuard.sameGuarded
  rawSet_of_ne_nil u k v hv := by
    refine (keepsGuard_rawSet fun h => hv ?_).sameGuarded
    exact congrArg (fun store => store.2.2) h
  eval args e := (keepsGuard_eval args e).sameGuarded

/-- To keep the guard is kept one call deeper, and when errors are caught. -/
theorem keptByCalls_sameGuarded (t m : TableId) : KeptByCalls (SameGuarded t m) :=
  keptByCalls_sameKeeping fun h => h.Guards t m

/-! ### Stopping before the protection is taken away -/

/-- The raw store that arguments ask for: the table, the key and the value. -/
def rawStore? (args : List Value) : Option (TableId × Value × Value) :=
  (argument args 0).asTable?.map fun u => (u, argument args 1, argument args 2)

/-- The store that an operation makes by itself, on a machine. -/
def Op.store? (args : List Value) (n : Machine) : Op → Option (TableId × Value × Value)
  | .rawSet => rawStore? args
  | .setIndex =>
    match n.heap.findNewIndex (argument args 1) n.limits.maxMetaChain (argument args 0) with
    | .table u => some (u, argument args 1, argument args 2)
    | _ => none
  | _ => none

/-- The store that a function makes by itself. -/
def Closure.store? (f : Closure) (args : List Value) : Option (TableId × Value × Value) :=
  match f.code with
  | .builtin .rawset => rawStore? args
  | _ => none

/-- Whether an operation attaches a metatable, also in place of a protected one. -/
def Op.forcesMetatable : Op → Bool
  | .attachMetatable => true
  | _ => false

/-- The supervision that stops a run, with an error, before the protection of a metatable is taken
away. -/
def stopping (m : TableId) (e : Error) : Supervision where
  perform E vs op := fun n =>
    if op.store? vs n = some (unlocking m) then Action.raise e n else op.perform E vs n
  around f args x := if f.store? args = some (unlocking m) then Action.raise e else x

/-- In the run of a program, nothing takes away the protection of a metatable: the run is never
stopped before that, with whatever error. -/
def Program.Spares (P : Program) (m : TableId) (fuel : Nat) (n : Machine) : Prop :=
  ∀ e, P.runUnder (stopping m e) fuel n = P.run fuel n

section

variable {t m : TableId}

theorem Value.eq_table_of_checkTable {v : Value} {u : TableId} (h : v.checkTable = .ok u) :
    v = .table u := by
  cases v with
  | table t =>
      cases h
      rfl
  | nil | boolean _ | number _ | string _ | function _ => cases h

/-- A check that names its argument gives what the check gives. -/
theorem eq_ok_of_atArgument {α : Type} {position : Nat} {function : String} {r : Except Fault α}
    {a : α} (h : atArgument position function r = .ok a) : r = .ok a := by
  cases r with
  | ok b => exact h
  | error f => cases h

/-- A raw store at the arguments of an operation or a function, if it does not unlock. -/
theorem sameGuarded_rawSet {args : List Value} {u : TableId}
    (h : some (u, argument args 1, argument args 2) ≠ some (unlocking m)) :
    SameGuarded t m (Action.rawSet u (argument args 1) (argument args 2))
      (Action.rawSet u (argument args 1) (argument args 2)) :=
  (keepsGuard_rawSet fun heq => h (congrArg some heq)).sameGuarded

/-- A raw store to the table that a check of the first argument gives, if it does not unlock. -/
theorem sameGuarded_rawStore {α : Type} {args : List Value}
    (h : rawStore? args ≠ some (unlocking m)) {check : Except Fault TableId}
    (hcheck : ∀ u, check = .ok u → argument args 0 = .table u) (result : TableId → α) :
    SameGuarded t m
      (Action.ofExcept check >>= fun u => Action.rawSet u (argument args 1) (argument args 2) >>=
        fun _ => pure (result u))
      (Action.ofExcept check >>= fun u => Action.rawSet u (argument args 1) (argument args 2) >>=
        fun _ => pure (result u)) := by
  have C := tameCongruence_sameGuarded t m
  cases check with
  | error f => exact C.fault f
  | ok u =>
      have hok : Action.ofExcept (.ok u) = pure u := rfl
      rw [rawStore?, hcheck u rfl] at h
      rw [hok, pure_bind]
      exact .bind (sameGuarded_rawSet h) fun _ => C.pure _

/-- A raw store of the library keeps the guard, unless it is the one that takes it away. -/
theorem sameGuarded_rawset {args : List Value} (h : rawStore? args ≠ some (unlocking m)) :
    SameGuarded t m (Library.rawset args) (Library.rawset args) :=
  sameGuarded_rawStore h (fun _ hu => Value.eq_table_of_checkTable (eq_ok_of_atArgument hu))
    fun u => Ret.single (.table u)

variable {E E' : Engine} (hE : Related (SameGuarded t m) E E')

include hE

/-- A write, on a machine on which it does not unlock. -/
theorem sameGuardedOn_setIndex {args : List Value} {n : Machine}
    (h : Op.setIndex.store? args n ≠ some (unlocking m)) (hn : n.heap.Guards t m) :
    SameGuardedOn t m n (Op.setIndex.perform E args) (Op.setIndex.perform E' args) := by
  have C := tameCongruence_sameGuarded t m
  refine SameGuardedOn.bind ?_ fun _ => C.pure _
  unfold SameGuardedOn
  rw [E.setIndex_apply, E'.setIndex_apply]
  simp only [Op.store?] at h
  cases hfound : n.heap.findNewIndex (argument args 1) n.limits.maxMetaChain (argument args 0) with
  | table u =>
      rw [hfound] at h
      exact sameGuarded_rawSet h n.configured hn
  | refused r => exact C.fault _ n.configured hn
  | handler f r =>
      exact SameGuarded.bind (C.tame (.notice _)) (fun _ => C.callNone hE _ _) n.configured hn
  | tooLong => exact SameGuarded.bind (C.tame (.notice _)) (fun _ => C.fault _) n.configured hn

/-- Two runs of an operation that are stopped before the protection is taken away. -/
theorem sameGuarded_stopping {e : Error}
    (hin : ∀ f args, SameGuarded t m (E.apply .inlined f args) (E'.apply .inlined f args))
    (args : List Value) {op : Op} (hop : op.forcesMetatable = false) :
    SameGuarded t m ((stopping m e).perform E args op) ((stopping m e).perform E' args op) := by
  have C := tameCongruence_sameGuarded t m
  intro n hn
  by_cases hstore : op.store? args n = some (unlocking m)
  · simp only [SameGuardedOn, stopping, hstore, if_true]
    exact ⟨trivial, hn⟩
  · simp only [SameGuardedOn, stopping, hstore, if_false]
    -- Only a raw operation can write as it is told, and its store is known to be another one.
    cases hraw : op.isRaw with
    | false =>
        refine C.perform hE op args (fun hout => ?_) (fun h => absurd (hraw ▸ h) Bool.false_ne_true)
          n hn
        refine C.performReaching hE .raise .outOfFuel hin hout fun hcached => ?_
        subst hcached
        exact .bind (Action.Within.of_heap_eq fun _ => rfl).sameGuarded fun _ => C.pure _
    | true =>
        cases op with
        | rawSet =>
            exact sameGuarded_rawStore hstore (fun _ => Value.eq_table_of_checkTable)
              (fun _ => Answer.none) n hn
        | setIndex => exact sameGuardedOn_setIndex hE hstore hn
        | attachMetatable => exact absurd hop.symm Bool.false_ne_true
        | _ => exact absurd hraw Bool.false_ne_true

end

/-! ### Watching -/

section

variable {t m : TableId}

/-- Where a metatable is protected and stays so, there is no alarm. -/
theorem SameGuarded.watched {α : Type} {x y : Action α} (h : SameGuarded t m x y)
    (alarm : Action α) : SameGuarded t m (Action.watched (fun n => n.Shields t m) alarm x) y :=
  @SameKeeping.watched (fun h => h.Guards t m) α _ (fun _ hn => hn.shields) x y h alarm

/-- Two runs of a function that are stopped before it takes the protection away. -/
theorem SameGuarded.stopping {e : Error} {f : Closure} {args : List Value} {x y : Action Ret}
    (h : (f.code = .builtin .rawset → SameGuarded t m (Library.rawset args) (Library.rawset args)) →
      SameGuarded t m x y) :
    SameGuarded t m ((stopping m e).around f args x) ((stopping m e).around f args y) := by
  unfold LuaKernel.stopping
  by_cases hstore : f.store? args = some (unlocking m)
  · simp only [hstore, if_true]
    exact .raise e
  · simp only [hstore, if_false]
    refine h fun hcode => sameGuarded_rawset ?_
    rwa [Closure.store?, hcode] at hstore

end

theorem Program.forcesMetatable_of_mem {P : Program} (hP : Op.attachMetatable ∉ P.ops) {op : Op}
    (hop : op ∈ P.ops) : op.forcesMetatable = false := by
  cases op with
  | attachMetatable => exact absurd hop hP
  | _ => rfl

/-- The stopped steps of a program are the same, watched over and not. -/
theorem sameGuarded_watching {P : Program} (hP : Op.attachMetatable ∉ P.ops) (t m : TableId)
    (e : Error) (alarm : (α : Type) → Action α) (fuel : Nat) (args : List Value) {s : Step}
    (hs : ∀ op ∈ s.ops, op ∈ P.ops) :
    SameGuarded t m
      (P.stepUnder ((stopping m e).watching (fun n => n.Shields t m) alarm) fuel args s)
      (P.stepUnder (stopping m e) fuel args s) := by
  have C := tameCongruence_sameGuarded t m
  have hfunctions : ∀ op ∈ P.functionOps, op.forcesMetatable = false := fun _ hop =>
    P.forcesMetatable_of_mem hP (P.mem_ops_of_mem_functionOps hop)
  have hstep : ∀ op ∈ s.ops, op.forcesMetatable = false := fun op hop =>
    P.forcesMetatable_of_mem hP (hs op hop)
  rw [← P.stepUnder_skipping hfunctions _ fuel args hstep,
    ← P.stepUnder_skipping hfunctions (stopping m e) fuel args hstep]
  refine C.stepUnder (keptByCalls_sameGuarded t m) .outOfFuel ?_ ?_ fuel args s
  · intro E E' hE hin args op
    simp only [Supervision.skipping]
    cases hop : op.forcesMetatable with
    | true => exact C.pure _
    | false => exact (sameGuarded_stopping hE hin args hop).watched _
  · intro f args x y h
    exact (SameGuarded.stopping h).watched _

namespace Program

variable {P : Program} (hP : Op.attachMetatable ∉ P.ops) {t m : TableId} {n : Machine}
  (hn : n.heap.Guards t m) (fuel : Nat) (e : Error)

include hP hn

/-- The guard is there at every point of a step that is stopped before it is taken away. -/
theorem alwaysIn_shields (args : List Value) {s : Step} (hs : ∀ op ∈ s.ops, op ∈ P.ops) :
    P.AlwaysIn (stopping m e) (fun n => n.Shields t m) fuel args s n ∧
      (P.stepUnder (stopping m e) fuel args s n).2.Shields t m := by
  have hsame := fun alarm => sameGuarded_watching hP t m e alarm fuel args hs n hn
  refine ⟨fun alarm => (hsame alarm).1, ?_⟩
  -- Where the run ends does not depend on the alarm, so any alarm will do.
  obtain ⟨heq, hend⟩ := hsame fun _ => Action.outOfFuel
  rw [← heq]
  exact hend.shields

/-- The guard is there at every point of a run that is stopped before it is taken away. -/
theorem always_shields :
    P.Always (stopping m e) (fun n => n.Shields t m) fuel n ∧
      (P.runUnder (stopping m e) fuel n).2.Shields t m := by
  have hsame := fun alarm => @SameKeeping.runSteps (fun h => h.Guards t m) _ _ P.steps
    (fun s hs => sameGuarded_watching hP t m e alarm fuel [] fun _ => P.mem_ops_of_step hs) n hn
  refine ⟨fun alarm => (hsame alarm).1, ?_⟩
  obtain ⟨heq, hend⟩ := hsame fun _ => Action.outOfFuel
  rw [runUnder, ← heq]
  exact hend.shields

end Program

/-- **A protected metatable stays.**  Let a program not attach metatables by force, and stop it
before nil is stored under `__metatable` in a metatable.  Take any step of the program, in the body
of a function or at the top, from a point at which a table has this metatable, with such an entry.
Then at every point from there on, before and after each operation and each function, and at the
end, the table has this metatable, with such an entry; to replace it fails with a runtime error and
changes nothing; and to ask for it gives the entry, as it is then.  The same holds of a run from
such a point.  If nil is never stored there in the run, it is not stopped, so this holds at all
points of the run itself. -/
theorem protected_metatable_stays {P : Program} (hP : Op.attachMetatable ∉ P.ops) (t m : TableId)
    (fuel : Nat) :
    (∀ s : Step, (∀ op ∈ s.ops, op ∈ P.ops) → ∀ e args (n : Machine), n.heap.Guards t m →
      P.AlwaysIn (stopping m e) (fun n => n.Shields t m) fuel args s n ∧
      (P.stepUnder (stopping m e) fuel args s n).2.Shields t m) ∧
    ∀ n : Machine, n.heap.Guards t m →
      (∀ e, P.Always (stopping m e) (fun n => n.Shields t m) fuel n ∧
        (P.runUnder (stopping m e) fuel n).2.Shields t m) ∧
      (P.Spares m fuel n →
        (∀ e alarm, P.runUnder ((stopping m e).watching (fun n => n.Shields t m) alarm) fuel n =
          P.run fuel n) ∧
        (P.run fuel n).2.Shields t m) := by
  refine ⟨fun s hs e args n hn => P.alwaysIn_shields hP hn fuel e args hs, fun n hn => ?_⟩
  have hstopped := P.always_shields hP hn fuel
  refine ⟨hstopped, fun hspares => ⟨fun e alarm => ?_, ?_⟩⟩
  · rw [(hstopped e).1 alarm, hspares e]
  · rw [← hspares (.internal "")]
    exact (hstopped _).2

/-- A machine with a table, in the register `t`, and its metatable, in the register `m`, that has a
`__metatable` entry. -/
def Machine.locked : Machine where
  heap := ⟨#[.empty, Table.empty.setMetatable (some ⟨2⟩),
    Table.empty.hashSet (.string "__metatable") (.boolean false)]⟩
  registers := (Assoc.empty.insert "t" (.table ⟨1⟩)).insert "m" (.table ⟨2⟩)

/-- The metatable of the first table has the field that protects it. -/
theorem Machine.guards_locked : Machine.locked.heap.Guards ⟨1⟩ ⟨2⟩ := ⟨rfl, by decide⟩

/-- A program that gives a metatable another `__metatable` entry, and then tries to take the
metatable away from its table. -/
def replacing : Program where
  prototypes := #[]
  steps := [
    { step := .mk (.op .setIndex)
        [.one (.register "m"), .one (.string "__metatable"), .one (.string "locked")] .nowhere },
    { step := .mk (.op .setMetatable) [.one (.register "t"), .one .nil] .nowhere }]

/-- The program tries to replace a metatable that is protected, and it is still there at the end. -/
theorem replacing_in_vain :
    Op.attachMetatable ∉ replacing.ops ∧ Machine.locked.heap.Guards ⟨1⟩ ⟨2⟩ ∧
    replacing.Spares ⟨2⟩ 1 .locked ∧
    (∀ e alarm, replacing.runUnder
      ((stopping ⟨2⟩ e).watching (fun n => n.Shields ⟨1⟩ ⟨2⟩) alarm) 1 .locked =
        replacing.run 1 .locked) ∧
    (replacing.run 1 .locked).2.Shields ⟨1⟩ ⟨2⟩ := by
  have hops : Op.attachMetatable ∉ replacing.ops := by
    have hlist : replacing.ops = [.setIndex, .setMetatable] := rfl
    simp [hlist]
  have hspares : replacing.Spares ⟨2⟩ 1 .locked := fun _ => rfl
  exact ⟨hops, Machine.guards_locked, hspares,
    ((protected_metatable_stays hops ⟨1⟩ ⟨2⟩ 1).2 _ Machine.guards_locked).2 hspares⟩

end LuaKernel
