import LuaKernel.Proofs.Cache.Recency
import LuaKernel.Proofs.Run.Invariants

/-!
# The byte cache cannot be observed

Two runs of a program that does not look into the byte cache, from machines that differ only in what
the cache holds, do the same (`cache_unobservable`): each step ends in the same way, the same
functions are started on the same arguments, and the machines at the end differ again in what the
cache holds, and else only in the notices of strings that were dropped from it.

What makes this true is that a cache holds for every string its own bytes.  So the bytes of a string
are the same whether they come from the cache or not (`agreeButCache_bytes`), and no other action
looks at the cache.  The relation between two actions that end in the same way on such machines
(`AgreeButCache`) is then kept by all operations.

That a cache holds for every string its own bytes is so at every point of every run
(`always_shared`).
-/

namespace LuaKernel

/-- A cache as the strings of a run share it: of at most sixteen strings, each with its
own bytes. -/
structure ByteCache.Shared (c : ByteCache) : Prop extends Sound c where
  capacity_eq : c.capacity = 16

/-- The cache that a run begins with is empty. -/
theorem ByteCache.shared_empty : (ByteCache.empty 16).Shared := ⟨sound_empty 16, rfl⟩

/-- The cache stays such a cache when it is asked for a string. -/
theorem ByteCache.Shared.get {c : ByteCache} (h : c.Shared) (s : String) : (c.get s).cache.Shared :=
  ⟨h.toSound.get s, (h.faithful.capacity_get s).trans h.capacity_eq⟩

/-- Whether a notice tells of something else than the cache. -/
def Notice.isUnrelated : Notice → Bool
  | .dropped _ => false
  | _ => true

/-- The notices of a log, but for those that tell of the cache. -/
def unrelatedNotices (log : List Notice) : List Notice := log.filter Notice.isUnrelated

/-- Two machines that differ only in what their caches hold, and in what their logs tell of that. -/
inductive Machine.SameButCache (m : Machine) : Machine → Prop where
  | intro (cache : ByteCache) (log : List Notice) (left : m.cache.Shared) (right : cache.Shared)
      (notices : unrelatedNotices m.log = unrelatedNotices log) :
      SameButCache m { m with cache, log }

/-- Two actions that end in the same way on machines that differ only in their caches, and leave
such machines behind. -/
def AgreeButCache {α : Type} (x y : Action α) : Prop :=
  ∀ m m', m.SameButCache m' → (x m).1 = (y m').1 ∧ (x m).2.SameButCache (y m').2

namespace AgreeButCache

variable {α β : Type}

/-- The first actions agree on their result, so the second ones begin in the same way. -/
theorem bind {x y : Action α} {f g : α → Action β} (hx : AgreeButCache x y)
    (hf : ∀ a, AgreeButCache (f a) (g a)) : AgreeButCache (x >>= f) (y >>= g) := by
  intro m m' hm
  obtain ⟨hres, hsame⟩ := hx m m' hm
  rcases hr : x m with ⟨e | a, n⟩ <;> rcases hr' : y m' with ⟨e' | a', n'⟩ <;>
    rw [hr, hr'] at hres hsame
  · obtain rfl : e = e' := Except.error.inj hres
    rw [Action.bind_of_error f hr, Action.bind_of_error g hr']
    exact ⟨rfl, hsame⟩
  · cases hres
  · cases hres
  · obtain rfl : a = a' := Except.ok.inj hres
    rw [Action.bind_of_ok f hr, Action.bind_of_ok g hr']
    exact hf a n n' hsame

theorem pure (a : α) : AgreeButCache (Pure.pure a : Action α) (Pure.pure a) := by
  rintro m _ ⟨cache, log, hl, hr, hn⟩
  exact ⟨rfl, .intro cache log hl hr hn⟩

theorem raise (e : Error) : AgreeButCache (Action.raise e : Action α) (Action.raise e) := by
  rintro m _ ⟨cache, log, hl, hr, hn⟩
  exact ⟨rfl, .intro cache log hl hr hn⟩

theorem outOfFuel : AgreeButCache (Action.outOfFuel : Action α) Action.outOfFuel := by
  rintro m _ ⟨cache, log, hl, hr, hn⟩
  exact ⟨rfl, .intro cache log hl hr hn⟩

theorem heap : AgreeButCache Action.heap Action.heap := by
  rintro m _ ⟨cache, log, hl, hr, hn⟩
  exact ⟨rfl, .intro cache log hl hr hn⟩

theorem putHeap (h : Heap) : AgreeButCache (Action.putHeap h) (Action.putHeap h) := by
  rintro m _ ⟨cache, log, hl, hr, hn⟩
  exact ⟨rfl, .intro cache log hl hr hn⟩

theorem table (t : TableId) : AgreeButCache (Action.table t) (Action.table t) := by
  rintro m _ ⟨cache, log, hl, hr, hn⟩
  exact ⟨rfl, .intro cache log hl hr hn⟩

theorem putTable (t : TableId) (contents : Table) :
    AgreeButCache (Action.putTable t contents) (Action.putTable t contents) := by
  rintro m _ ⟨cache, log, hl, hr, hn⟩
  exact ⟨rfl, .intro cache log hl hr hn⟩

theorem ofExcept (r : Except Fault α) : AgreeButCache (Action.ofExcept r) (Action.ofExcept r) := by
  cases r with
  | ok a => exact .pure a
  | error f => exact .raise _

/-- A raw write looks at its table and replaces it, and the heaps of both machines are the same. -/
theorem rawSet (t : TableId) (k v : Value) :
    AgreeButCache (Action.rawSet t k v) (Action.rawSet t k v) :=
  .bind (.table t) fun _ => .bind (.ofExcept _) fun _ => .putTable t _

/-- Whether a counter overflows is told by the counter and the machine, not by the cache. -/
theorem advance (counter : Int64) :
    AgreeButCache (Action.advance counter) (Action.advance counter) := by
  rintro m _ ⟨cache, log, hl, hr, hn⟩
  simp only [Action.advance]
  split
  · exact ⟨rfl, .intro cache log hl hr hn⟩
  · exact ⟨rfl, .intro cache log hl hr hn⟩

/-- A list is stored by counting and by raw writes, none of which looks at the cache. -/
theorem storeFrom (t : TableId) (counter : Int64) (vs : List Value) :
    AgreeButCache (Action.storeFrom t counter vs) (Action.storeFrom t counter vs) := by
  induction vs generalizing counter with
  | nil => exact .bind (.advance counter) fun _ => .pure ()
  | cons v vs ih => exact .bind (.advance counter) fun _ => .bind (.rawSet t _ v) fun _ => ih _

/-- A notice is put before two logs that tell the same of all but the cache. -/
theorem notice (n : Notice) : AgreeButCache (Action.notice n) (Action.notice n) := by
  rintro m _ ⟨cache, log, hl, hr, hn⟩
  refine ⟨rfl, .intro cache (n :: log) hl hr ?_⟩
  simp only [unrelatedNotices, Action.notice, List.filter_cons] at hn ⊢
  rw [hn]

/-- A configuration is accepted if there is none yet, whatever the cache holds. -/
theorem configure (c : Config) : AgreeButCache (Action.configure c) (Action.configure c) := by
  rintro m _ ⟨cache, log, hl, hr, hn⟩
  simp only [Action.configure]
  split
  · exact ⟨rfl, .intro cache log hl hr hn⟩
  · exact ⟨rfl, .intro cache log hl hr hn⟩

/-- What is printed goes to the same outlet, which stands in the same way on both machines. -/
theorem print (o : Outlet) (bytes : List UInt8) :
    AgreeButCache (Action.print o bytes) (Action.print o bytes) := by
  rintro m _ ⟨cache, log, hl, hr, hn⟩
  have hput : ∀ s, (Action.putOutlet o s m).SameButCache
      (Action.putOutlet o s { m with cache, log }) := by
    intro s
    cases o with
    | sink => exact .intro cache log hl hr hn
    | console => exact .intro cache log hl hr hn
  have hsink : Action.outlet o { m with cache, log } = Action.outlet o m := by
    cases o with
    | sink => rfl
    | console => rfl
  simp only [Action.print, hsink]
  split
  · exact ⟨rfl, .intro cache log hl hr hn⟩
  · split
    · exact ⟨rfl, hput _⟩
    · exact ⟨rfl, hput _⟩

end AgreeButCache

/-- The bytes of a string do not depend on the cache. -/
theorem Action.bytes_apply {m : Machine} (h : m.cache.Faithful) (s : String) :
    ∃ log, unrelatedNotices log = unrelatedNotices m.log ∧
      Action.bytes s m = (.ok (Utf8.bytes s), { m with cache := (m.cache.get s).cache, log }) := by
  have hask : askCache s m = (.ok (m.cache.get s), { m with cache := (m.cache.get s).cache }) := rfl
  rw [bytes, bind_of_ok _ hask, ← h.bytes_get s]
  cases (m.cache.get s).dropped with
  | none => exact ⟨m.log, rfl, rfl⟩
  | some k => exact ⟨.dropped (Utf8.bytes k).length :: m.log, rfl, rfl⟩

/-- Two caches with the bytes of their strings give the same bytes, though they may drop different
strings. -/
theorem agreeButCache_bytes (s : String) : AgreeButCache (Action.bytes s) (Action.bytes s) := by
  rintro m _ ⟨cache, log, hl, hr, hn⟩
  obtain ⟨l, hl', heq⟩ := Action.bytes_apply hl.faithful s
  obtain ⟨l', hr', heq'⟩ := Action.bytes_apply (m := { m with cache, log }) hr.faithful s
  rw [heq, heq']
  refine ⟨rfl, .intro (cache.get s).cache l' (hl.get s) (hr.get s) ?_⟩
  exact hl'.trans (hn.trans hr'.symm)

/-- The actions of the machine do not depend on the cache. -/
theorem Tame.agreeButCache {α : Type} {x : Action α} (h : Tame x) : AgreeButCache x x := by
  cases h with
  | pure a => exact .pure a
  | raise v => exact .raise _
  | heap => exact .heap
  | table t => exact .table t
  | notice n => exact .notice n
  | configure c => exact .configure c
  | setList v start vs => exact .bind (.ofExcept _) fun t => .storeFrom t start vs
  | replaceMetatable v m =>
      exact .bind .heap fun _ => .bind (.ofExcept _) fun _ => .bind (.putHeap _) fun _ => .pure _
  | bytes s => exact agreeButCache_bytes s
  | print o bytes => exact .print o bytes
  | config | isConfigured | newTable | newFunction | callDepth | recordStart | register
    | setRegister =>
      rintro m _ ⟨cache, log, hl, hr, hn⟩
      exact ⟨rfl, .intro cache log hl hr hn⟩

/-- Not to depend on the cache is kept by all operations. -/
theorem congruence_agreeButCache : Congruence AgreeButCache where
  atom h := by
    cases h with
    | tame h => exact h.agreeButCache
    | rawSet t k v => exact .rawSet t k v
    | attachMetatable t m => exact .bind (.table t) fun _ => .putTable _ _
  bind := AgreeButCache.bind

/-- The depth of both machines may be set to one number. -/
theorem Machine.SameButCache.withDepth {m m' : Machine} (h : m.SameButCache m') (k : Nat) :
    SameButCache { m with depth := k } { m' with depth := k } := by
  obtain ⟨cache, log, hl, hr, hn⟩ := h
  exact .intro cache log hl hr hn

/-- Machines that differ only in their caches have the same depth. -/
theorem Machine.SameButCache.depth_eq {m m' : Machine} (h : m.SameButCache m') :
    m.depth = m'.depth := by
  obtain ⟨cache, log, hl, hr, hn⟩ := h
  rfl

/-- Not to depend on the cache is kept one call deeper, and when errors are caught. -/
theorem keptByCalls_agreeButCache : KeptByCalls AgreeButCache where
  nested {_ x y} h := by
    intro m m' hm
    obtain ⟨hres, hsame⟩ := h _ _ (hm.withDepth (m.depth + 1))
    have hdepth := hm.depth_eq
    simp only [Action.nested]
    -- Both runs come back from one level deeper, and count their way back by themselves.
    rw [← hdepth, ← hsame.depth_eq]
    exact ⟨hres, hsame.withDepth _⟩
  catchRuntime {_ x y handle} h hh := by
    intro m m' hm
    obtain ⟨hres, hsame⟩ := h m m' hm
    simp only [Action.catchRuntime]
    rcases hr : x m with ⟨r, n⟩
    rcases hr' : y m' with ⟨r', n'⟩
    rw [hr, hr'] at hres hsame
    obtain rfl : r = r' := hres
    split
    · next payload _ heq =>
        cases heq
        exact hh payload n n' hsame
    · next hnot =>
        split
        · next payload _ heq =>
            cases heq
            exact absurd rfl (hnot payload n)
        · exact ⟨rfl, hsame⟩

/-! ### Functions and steps -/

/-- Whether an operation looks into the cache. -/
def Op.looksIntoCache : Op → Bool
  | .cached => true
  | _ => false

/-- The supervision that lets nothing look into the cache. -/
def blindfold : Supervision := .skipping .none Op.looksIntoCache

/-- No operation depends on the cache as long as it may not look into it. -/
theorem blindfold_perform {E E' : Engine} (hE : Related AgreeButCache E E')
    (hin : ∀ f args, AgreeButCache (E.apply .inlined f args) (E'.apply .inlined f args))
    (args : List Value) (op : Op) :
    AgreeButCache (blindfold.perform E args op) (blindfold.perform E' args op) := by
  have C := congruence_agreeButCache
  simp only [blindfold, Supervision.skipping]
  split
  · exact .pure _
  · next hlooks =>
      refine C.perform hE op args fun hout => ?_
      refine C.performReaching hE .raise .outOfFuel hin hout fun hcached => ?_
      exact absurd (hcached ▸ rfl) hlooks

namespace Program

variable {P : Program} (hP : Op.cached ∉ P.ops)

include hP

/-- An operation of a program that does not look into the cache does not look into it. -/
theorem looksIntoCache_of_mem {op : Op} (hop : op ∈ P.ops) : op.looksIntoCache = false := by
  cases op with
  | cached => exact absurd hop hP
  | _ => rfl

/-- Functions do not depend on the cache. -/
theorem agreeButCache_apply (fuel : Nat) (f : Closure) (args : List Value) :
    AgreeButCache (P.apply fuel f args) (P.apply fuel f args) := by
  have hblind : P.applyUnder blindfold fuel = P.apply fuel :=
    (applyUnder_skipping (fun _ hop => looksIntoCache_of_mem hP (mem_ops_of_mem_functionOps hop))
      .none fuel).trans (P.applyUnder_none fuel)
  rw [← hblind]
  exact congruence_agreeButCache.applyUnder keptByCalls_agreeButCache .outOfFuel blindfold_perform
    (fun _ _ _ _ h => h fun _ => congruence_agreeButCache.rawset _) fuel f args

/-- Operations of a program do not depend on the cache. -/
theorem agreeButCache_perform (fuel : Nat) {op : Op} (hop : op ∈ P.ops) (args : List Value) :
    AgreeButCache (op.perform (P.engine fuel) args) (op.perform (P.engine fuel) args) := by
  have happly := agreeButCache_apply hP fuel
  have hE : Related AgreeButCache (P.engine fuel) (P.engine fuel) :=
    congruence_agreeButCache.related keptByCalls_agreeButCache (fun _ => happly) rfl
  have hblind : blindfold.perform (P.engine fuel) args op = op.perform (P.engine fuel) args :=
    skipping_perform .none (looksIntoCache_of_mem hP hop) _ args
  rw [← hblind]
  exact blindfold_perform hE happly args op

/-- Steps of a program do not depend on the cache. -/
theorem agreeButCache_step (fuel : Nat) {s : TopStep} (hs : s ∈ P.steps) :
    AgreeButCache (s.step.run (Op.perform (P.engine fuel)) [])
      (s.step.run (Op.perform (P.engine fuel)) []) := by
  have hblind : P.stepUnder blindfold fuel [] s.step = s.step.run (Op.perform (P.engine fuel)) [] :=
    (stepUnder_skipping (fun _ hop => looksIntoCache_of_mem hP (mem_ops_of_mem_functionOps hop))
      .none fuel [] fun _ hop => looksIntoCache_of_mem hP (mem_ops_of_step hs hop)).trans
      (P.stepUnder_none fuel [] s.step)
  rw [← hblind]
  exact congruence_agreeButCache.stepUnder keptByCalls_agreeButCache .outOfFuel blindfold_perform
    (fun _ _ _ _ h => h fun _ => congruence_agreeButCache.rawset _) fuel [] s.step

end Program

/-! ### Sessions -/

/-- Two records that differ only in what they tell of the cache. -/
structure StepRecord.SameButCache (r r' : StepRecord) : Prop where
  outcome : r.outcome = r'.outcome
  trace : r.trace = r'.trace
  notices : unrelatedNotices r.log = unrelatedNotices r'.log

/-- Machines that differ only in their caches are prepared for a step in the same way. -/
theorem Machine.SameButCache.prepared {m m' : Machine} (h : m.SameButCache m') (holdsSink : Bool) :
    (m.prepared holdsSink).SameButCache (m'.prepared holdsSink) := by
  obtain ⟨cache, log, hl, hr, hn⟩ := h
  exact .intro cache [] hl hr rfl

/-- The records of a step that ends alike on such machines differ in what they tell of the cache
only. -/
theorem Machine.SameButCache.record {m m' : Machine} (h : m.SameButCache m')
    (outcome : Except Halt Completion) :
    (StepRecord.ofEnd (outcome, m)).1.SameButCache (StepRecord.ofEnd (outcome, m')).1 := by
  obtain ⟨cache, log, hl, hr, hn⟩ := h
  refine ⟨rfl, rfl, ?_⟩
  simp only [unrelatedNotices, StepRecord.ofEnd, List.filter_reverse] at hn ⊢
  rw [hn]

/-- **The byte cache cannot be observed.**  Let a program not look into the cache, and let two
machines differ only in what their caches hold, each of at most sixteen strings with their own
bytes.  Then on both machines every operation of the program and every function ends in the same
way, and leaves such machines behind: with one heap, one output and one depth, and with caches that
hold at most sixteen strings with their own bytes.  So, in a session, do all steps from the first
on. -/
theorem cache_unobservable {P : Program} (hP : Op.cached ∉ P.ops) (fuel : Nat) :
    (∀ op ∈ P.ops, ∀ args, AgreeButCache (op.perform (P.engine fuel) args)
      (op.perform (P.engine fuel) args)) ∧
    (∀ f args, AgreeButCache (P.apply fuel f args) (P.apply fuel f args)) ∧
    ∀ m m', m.SameButCache m' → ∀ steps, steps <+: P.steps →
      List.Forall₂ StepRecord.SameButCache (P.performAll fuel m steps).1
        (P.performAll fuel m' steps).1 ∧
      (P.performAll fuel m steps).2.SameButCache (P.performAll fuel m' steps).2 := by
  refine ⟨fun op hop => P.agreeButCache_perform hP fuel hop, P.agreeButCache_apply hP fuel,
    fun m m' h steps hsteps => ?_⟩
  rw [P.performAll_eq_runSteps, P.performAll_eq_runSteps]
  exact runSteps_related .prepared Machine.SameButCache.record
    (fun s hs => P.agreeButCache_step hP fuel (hsteps.mem hs)) h

/-- A program that asks for the length of a string, and of nil, which fails: once under a protected
call, and once at the top. -/
def measuring : Program where
  prototypes := #[{ body := [
    .mk (.op .length) [.one (.string "ab")] .nowhere,
    .mk (.op .length) [.one .nil] .nowhere] }]
  steps := [
    { step := .mk (.op .protectedCall) [.one (.function "f" 0)] .nowhere },
    { step := .mk (.op .length) [.one (.string "cd")] .nowhere },
    { step := .mk (.op .length) [.one .nil] .nowhere }]

/-- A machine whose cache has already been asked for a string. -/
def warmed : Machine := { cache := ((ByteCache.empty 16).get "ab").cache }

/-- A fresh cache and one that has been asked for a string are both as a run shares them. -/
theorem sameButCache_warmed : Machine.SameButCache {} warmed :=
  .intro _ [] ByteCache.shared_empty (ByteCache.shared_empty.get "ab") rfl

/-- The program measures strings of which one is in the second cache already, and each step of it
ends in the same way on both machines. -/
theorem measuring_unobservable :
    warmed.cache.keys = ["ab"] ∧ Op.cached ∉ measuring.ops ∧ Machine.SameButCache {} warmed ∧
    List.Forall₂ StepRecord.SameButCache (measuring.performAll 3 {} measuring.steps).1
      (measuring.performAll 3 warmed measuring.steps).1 ∧
    (measuring.performAll 3 {} measuring.steps).2.SameButCache
      (measuring.performAll 3 warmed measuring.steps).2 := by
  have hops : Op.cached ∉ measuring.ops := by
    have hlist : measuring.ops = [.length, .length, .protectedCall, .length, .length] := rfl
    simp [hlist]
  exact ⟨rfl, hops, sameButCache_warmed,
    (cache_unobservable hops 3).2.2 {} warmed sameButCache_warmed _ (List.prefix_refl _)⟩

/-! ### Caches of runs -/

/-- Both caches are as a run shares them, the first one too. -/
theorem Machine.SameButCache.shared {m m' : Machine} (h : m.SameButCache m') : m.cache.Shared := by
  obtain ⟨cache, log, hl, hr, hn⟩ := h
  exact hl

/-- The actions of the machine keep a shared cache: on a machine and itself, they do the same. -/
theorem Atomic.shared {α : Type} {x : Action α} (h : Atomic x) (m : Machine) (hm : m.cache.Shared) :
    (x m).2.cache.Shared :=
  (congruence_agreeButCache.atom h m m (.intro m.cache m.log hm hm rfl)).2.shared

theorem Machine.lasting_shared : Lasting fun m => m.cache.Shared where
  depth _ hm := hm
  prepared _ hm := hm

/-- **The caches of every run are shared**: at every point, the cache holds at most sixteen strings,
each with its own bytes. -/
theorem always_shared (P : Program) (fuel : Nat) (policy : SinkPolicy) (counters : CounterPolicy)
    {m : Machine} (hm : m = .fresh policy counters ∨ m = .opened policy counters) :
    P.Always .none (fun n => n.cache.Shared) fuel m ∧ (P.run fuel m).2.cache.Shared := by
  have F := fullCongruence_sameWhere Atomic.shared
  refine P.always_of_sameWhere Machine.lasting_shared F fuel ?_
  rcases hm with rfl | rfl
  · exact ByteCache.shared_empty
  · exact Machine.opened_of_sameWhere Machine.lasting_shared F ByteCache.shared_empty

end LuaKernel
