import LuaKernel.Proofs.Metatable.Frame
import LuaKernel.Proofs.Run.Invariants
import LuaKernel.Proofs.Table.History

/-!
# What runs do to the heap

Four actions write to the heap, and one that stores a list by one of them.  A property of heaps that
they keep (`Heap.KeptByWrites`) is kept by everything that a program does.  So it holds at every
point of a run, if it holds at the start (`Program.always_of_keptByWrites`).

The first such property: the tables of a heap have come about by changes to tables without entries
(`Heap.Grown`).  What is known of histories of changes thus holds of every table that a run meets,
and in particular a raw write changes one entry (`Heap.Grown.rawGet_rawSet`).
-/

namespace LuaKernel

/-- A property of the heap depends on nothing else. -/
theorem Machine.lasting_heap (good : Heap → Prop) : Lasting fun m => good m.heap where
  depth _ hm := hm
  prepared _ hm := hm

/-! ### Actions that keep a property -/

/-- If the heap before has a property, then so has the heap after. -/
def Heap.Keeps (good : Heap → Prop) (h h' : Heap) : Prop := good h → good h'

instance (good : Heap → Prop) : IsPreorder Heap (Heap.Keeps good) where
  refl _ hm := hm
  trans _ _ _ h₁ h₂ hm := h₂ (h₁ hm)

/-- Two actions that do the same where the heap has a property, and keep it. -/
def SameKeeping (good : Heap → Prop) {α : Type} (x y : Action α) : Prop :=
  ∀ m, good m.heap → x m = y m ∧ good (x m).2.heap

namespace SameKeeping

variable {good : Heap → Prop} {α β : Type}

theorem bind_apply {x y : Action α} {f g : α → Action β} {m : Machine}
    (hx : x m = y m ∧ good (x m).2.heap) (hf : ∀ a, SameKeeping good (f a) (g a)) :
    (x >>= f) m = (y >>= g) m ∧ good ((x >>= f) m).2.heap :=
  @SameWhere.bind_apply (fun m => good m.heap) α β x y f g m hx hf

/-- There is no alarm for what follows from a property that is kept. -/
theorem watched {weaker : Machine → Prop} (hweaker : ∀ m, good m.heap → weaker m) {x y : Action α}
    (h : SameKeeping good x y) (alarm : Action α) :
    SameKeeping good (Action.watched weaker alarm x) y :=
  SameWhere.watched hweaker h alarm

/-- Sessions are the same, if their steps are. -/
theorem runSteps {act act' : List Value → Op → Action Answer} {steps : List TopStep}
    (h : ∀ s ∈ steps, SameKeeping good (s.step.run act []) (s.step.run act' [])) {m : Machine}
    (hm : good m.heap) :
    runSteps act m steps = runSteps act' m steps ∧ good (runSteps act m steps).2.heap :=
  SameWhere.runSteps (Machine.lasting_heap good) h hm

end SameKeeping

theorem keptByCalls_sameKeeping (good : Heap → Prop) : KeptByCalls (SameKeeping good) :=
  keptByCalls_sameWhere (Machine.lasting_heap good).depth

/-! ### Properties that all actions keep -/

/-- The actions that write to the heap keep a property. -/
structure Heap.KeptByWrites (good : Heap → Prop) : Prop where
  newTable : Action.newTable.Within (Keeps good)
  rawSet : ∀ t k v, (Action.rawSet t k v).Within (Keeps good)
  attachMetatable : ∀ t m, (Action.attachMetatable t m).Within (Keeps good)
  replaceMetatable : ∀ v w, (Action.replaceMetatable v w).Within (Keeps good)

section

variable {good : Heap → Prop} (hgood : Heap.KeptByWrites good)

include hgood

theorem fullCongruence_sameKeeping : FullCongruence (SameKeeping good) := by
  refine fullCongruence_sameWhere fun h => ?_
  cases h with
  | tame h =>
      exact h.within hgood.newTable (fun t _ => hgood.rawSet t _) hgood.replaceMetatable
  | rawSet t k v => exact hgood.rawSet t k v
  | attachMetatable t m => exact hgood.attachMetatable t m

/-- **A property that writes keep holds at every point of a run**, before and after each operation
and each function, and at the end. -/
theorem Program.always_of_keptByWrites (P : Program) (fuel : Nat) {m : Machine} (hm : good m.heap) :
    P.Always .none (fun n => good n.heap) fuel m ∧ good (P.run fuel m).2.heap :=
  P.always_of_sameWhere (Machine.lasting_heap good) (fullCongruence_sameKeeping hgood) fuel hm

/-- To open the global environment keeps such a property. -/
theorem Machine.keeps_opened (hstart : good .start) (policy : SinkPolicy)
    (counters : CounterPolicy) : good (opened policy counters).heap :=
  opened_of_sameWhere (lasting_heap good) (fullCongruence_sameKeeping hgood) hstart

end

/-! ### Tables that have come about by changes -/

/-- A table that has come about by changes to one without entries. -/
def Table.Grown (t : Table) : Prop := ∃ es, t = ofHistory es

namespace Table.Grown

variable {t t' : Table}

/-- An operation of a history makes the history of a table one longer. -/
theorem edit (h : t.Grown) {e : Edit} (he : t.edit? e = .ok t') : t'.Grown := by
  obtain ⟨es, rfl⟩ := h
  refine ⟨es ++ [e], ?_⟩
  rw [ofHistory_append, Table.edit, he]

end Table.Grown

/-- All tables have come about by changes. -/
def Heap.Grown (h : Heap) : Prop := ∀ t, (h.get t).Grown

namespace Heap

variable {h : Heap}

theorem grown_start : start.Grown := by
  rintro ⟨i⟩
  cases i with
  | zero => exact ⟨[], rfl⟩
  | succ i => exact ⟨[], rfl⟩

/-- A table may be replaced by another one that comes from a history. -/
theorem Grown.set (hg : h.Grown) (t : TableId) {contents : Table} (hc : contents.Grown) :
    (h.set t contents).Grown := by
  intro u
  rw [h.get_set]
  split
  · exact hc
  · exact hg u

theorem Grown.setMetatable {h' : Heap} {target metatable : Value} (hg : h.Grown)
    (hset : h.setMetatable target metatable = .ok h') : h'.Grown := by
  unfold Heap.setMetatable at hset
  split at hset
  · cases hset
  · next m _ =>
      split at hset
      · cases target with
        | table t =>
            cases hset
            exact hg.set t ((hg t).edit (e := .setMetatable m) rfl)
        | nil | boolean _ | number _ | string _ | function _ => cases hset
      · cases hset

end Heap

/-- An action that makes a table of a table, and puts it in its place. -/
theorem keepsGrown_update {t : TableId} {f : Table → Except Fault Table}
    (hf : ∀ {old new}, f old = .ok new → old.Grown → new.Grown) :
    (do let contents ← Action.ofExcept (f (← Action.table t))
        Action.putTable t contents : Action Unit).Within (Heap.Keeps Heap.Grown) := by
  intro m hg
  have htable : Action.table t m = (.ok (m.heap.get t), m) := rfl
  rw [Action.bind_of_ok _ htable]
  cases hnew : f (m.heap.get t) with
  | error e => exact hg
  | ok new => exact hg.set t (hf hnew (hg t))

/-- Tables come about by changes, in all runs. -/
theorem Heap.keptByWrites_grown : Heap.KeptByWrites Heap.Grown where
  newTable m hg t := m.heap.get_alloc t ▸ hg t
  rawSet t k v := keepsGrown_update fun hset hold => hold.edit (e := .set k v) hset
  attachMetatable t m :=
    keepsGrown_update (f := fun old => .ok (old.setMetatable m)) fun hset hold =>
      hold.edit (e := .setMetatable m) hset
  replaceMetatable v w m hg := by
    unfold Action.replaceMetatable
    rw [Action.bind_of_ok _ (Action.heap_apply _)]
    cases hset : m.heap.setMetatable v w with
    | error f => exact hg
    | ok h' => exact hg.setMetatable hset

/-- **The tables of every run have come about by changes**: those of a host, with or without the
global environment, at every point. -/
theorem always_grown (P : Program) (fuel : Nat) (policy : SinkPolicy) (counters : CounterPolicy)
    {m : Machine} (hm : m = .fresh policy counters ∨ m = .opened policy counters) :
    P.Always .none (fun n => n.heap.Grown) fuel m ∧ (P.run fuel m).2.heap.Grown := by
  refine P.always_of_keptByWrites Heap.keptByWrites_grown fuel ?_
  rcases hm with rfl | rfl
  · exact Heap.grown_start
  · exact Machine.keeps_opened Heap.keptByWrites_grown Heap.grown_start policy counters

/-- In such a heap, a raw write changes what the keys read that are raw-equal to its own. -/
theorem Heap.Grown.rawGet_rawSet {h : Heap} (hg : h.Grown) {t : TableId} {key v : Value}
    {contents : Table} (hset : (h.get t).rawSet key v = .ok contents) (k : Value) :
    contents.rawGet k = if key.rawEqual k then v else (h.get t).rawGet k := by
  obtain ⟨es, hes⟩ := hg t
  obtain ⟨hN, hsize⟩ := Table.normal_ofHistory es
  rw [hes] at hset ⊢
  exact Table.rawGet_rawSet hN hsize hset k

/-- The key of the write reads the value. -/
theorem Heap.Grown.rawGet_rawSet_self {h : Heap} (hg : h.Grown) {t : TableId} {key v : Value}
    {contents : Table} (hset : (h.get t).rawSet key v = .ok contents) :
    contents.rawGet key = v := by
  have hself : key.rawEqual key = true := by
    rcases Value.key?_eq_none_or_some key with ⟨-, hk⟩ | ⟨-, -, hk⟩
    · obtain ⟨f, hf⟩ := (h.get t).rawSet_of_not_isKey v hk
      cases hset.symm.trans hf
    · exact (Value.key?_eq_key?_iff hk hk).1 rfl
  rw [hg.rawGet_rawSet hset, if_pos hself]

end LuaKernel
