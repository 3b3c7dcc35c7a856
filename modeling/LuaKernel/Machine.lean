import LuaKernel.ByteCache
import LuaKernel.Config
import LuaKernel.Heap
import LuaKernel.Notice
import LuaKernel.Sink

/-!
# The machine

The state of a run, and the actions that read and change it.  An action ends with a result or with
a halt; either way it leaves a state behind, so what was done before a failure stays done.  A halt
is an error of the run, or a counter that overflowed on a machine that stops there, or the sign that
the fuel given to the run was too little, which is no outcome of the program.

Everything the kernel does is put together from the actions of this module.
-/

namespace LuaKernel

/-- What a counter of machine words does at the greatest one: it goes on with the least, or it stops
the machine.  A kernel is built for the one or for the other. -/
inductive CounterPolicy where
  | wraps
  | stops
deriving DecidableEq

/-- The start of a function, as a trace shows it. -/
structure Started where
  name : String
  args : List Value
  depth : Nat

/-- The state of a run. -/
structure Machine where
  heap : Heap := Heap.start
  /-- How many functions have an identity. -/
  functions : Nat := 0
  cache : ByteCache := ByteCache.empty 16
  /-- The configuration, once it was installed or read. -/
  config : Option Config := none
  /-- How many calls are under way. -/
  depth : Nat := 0
  sink : Sink := {}
  console : Sink := {}
  registers : Assoc String Value := Assoc.empty
  /-- The functions that were started, the last one first. -/
  trace : List Started := []
  /-- The notices that were given, the last one first. -/
  log : List Notice := []
  counters : CounterPolicy := .wraps

/-- Why an action ends without a result. -/
inductive Halt where
  | error (e : Error)
  /-- A counter overflowed that stops the machine.  Nothing catches this. -/
  | counterOverflow
  /-- The fuel was too little to tell. -/
  | outOfFuel

/-- A computation on the state of a run. -/
def Action (α : Type) : Type := Machine → Except Halt α × Machine

namespace Action

variable {α β : Type}

instance : Monad Action where
  pure a := fun m => (.ok a, m)
  bind x f := fun m =>
    match x m with
    | (.ok a, m') => f a m'
    | (.error e, m') => (.error e, m')

/-- An action that follows one that halts is not run. -/
theorem bind_of_error {x : Action α} {m m' : Machine} {e : Halt} (f : α → Action β)
    (h : x m = (.error e, m')) : (x >>= f) m = (.error e, m') := by
  simp only [Bind.bind, h]

/-- An action that follows one with a result is run on what that one left. -/
theorem bind_of_ok {x : Action α} {m m' : Machine} {a : α} (f : α → Action β)
    (h : x m = (.ok a, m')) : (x >>= f) m = f a m' := by
  simp only [Bind.bind, h]

/-- Two actions in a row lead as far as a transitive relation lets each of them lead. -/
theorem bind_leads {ρ : Machine → Machine → Prop} (trans : ∀ {m m₁ m₂}, ρ m m₁ → ρ m₁ m₂ → ρ m m₂)
    {x : Action α} {f : α → Action β} (hx : ∀ m, ρ m (x m).2) (hf : ∀ a m, ρ m (f a m).2)
    (m : Machine) : ρ m ((x >>= f) m).2 := by
  have hfirst := hx m
  rcases hr : x m with ⟨e | a, m'⟩ <;> rw [hr] at hfirst
  · rwa [bind_of_error f hr]
  · rw [bind_of_ok f hr]
    exact trans hfirst (hf a m')

theorem id_map_apply (x : Action α) (m : Machine) : (id <$> x) m = x m := by
  rcases hx : x m with ⟨e | a, m'⟩
  · exact bind_of_error _ hx
  · exact bind_of_ok _ hx

theorem bind_assoc_apply {γ : Type} (x : Action α) (f : α → Action β) (g : β → Action γ)
    (m : Machine) : (x >>= f >>= g) m = (x >>= fun a => f a >>= g) m := by
  rcases hx : x m with ⟨e | a, m'⟩
  · rw [bind_of_error _ (bind_of_error f hx), bind_of_error _ hx]
  · rw [bind_of_ok _ hx]
    simp only [Bind.bind, hx]

instance : LawfulMonad Action :=
  LawfulMonad.mk' Action (fun x => funext (id_map_apply x)) (fun _ _ => rfl)
    (fun x f g => funext (bind_assoc_apply x f g))

/-! ### Failing -/

/-- Stops with an error. -/
def raise (e : Error) : Action α := fun m => (.error (.error e), m)

/-- Stops with the error of a fault. -/
def fault (f : Fault) : Action α := raise (.ofFault f)

/-- Stops for lack of fuel. -/
def outOfFuel : Action α := fun m => (.error .outOfFuel, m)

/-- A result, or the error of its fault. -/
def ofExcept : Except Fault α → Action α
  | .ok a => pure a
  | .error f => fault f

/-- Runs an action and turns a runtime error, which it catches, into a result. -/
def catchRuntime (x : Action α) (handle : Value → Action α) : Action α := fun m =>
  match x m with
  | (.error (.error (.runtime payload)), m') => handle payload m'
  | r => r

theorem catchRuntime_of_runtime {x : Action α} {handle : Value → Action α} {m m' : Machine}
    {payload : Value} (h : x m = (.error (.error (.runtime payload)), m')) :
    catchRuntime x handle m = handle payload m' := by
  simp only [catchRuntime, h]

/-- What does not stop with a runtime error is left alone. -/
theorem catchRuntime_of_ne {x : Action α} {m : Machine}
    (h : ∀ v, (x m).1 ≠ .error (.error (.runtime v))) (handle : Value → Action α) :
    catchRuntime x handle m = x m := by
  unfold catchRuntime
  split
  · next v m' hr => exact absurd (congrArg Prod.fst hr) (h v)
  · rfl

/-! ### Counting -/

/-- The next position of a counter. -/
def advance (counter : Int64) : Action Int64 := fun m =>
  if m.counters = .stops ∧ counter = Int64.maxValue then (.error .counterOverflow, m)
  else (.ok (counter + 1), m)

/-- To count changes nothing. -/
theorem advance_snd (counter : Int64) (m : Machine) : (advance counter m).2 = m := by
  unfold advance
  split <;> rfl

/-! ### The configuration -/

/-- The configuration; the first to ask for one that was not installed installs the standard one. -/
def config : Action Config := fun m =>
  let c := m.config.getD .standard
  (.ok c, { m with config := some c })

/-- Whether a configuration was installed or read. -/
def isConfigured : Action Bool := fun m => (.ok m.config.isSome, m)

/-- Installs a configuration if there is none, and tells whether it did. -/
def configure (c : Config) : Action Bool := fun m =>
  match m.config with
  | none => (.ok true, { m with config := some c })
  | some _ => (.ok false, m)

/-- Nothing else changes than that there is a configuration afterwards. -/
theorem configure_snd (c : Config) (m : Machine) :
    (configure c m).2 = { m with config := some (m.config.getD c) } := by
  unfold configure
  split
  · next hm => rw [hm, Option.getD_none]
  · next held hm => rw [hm, Option.getD_some, ← hm]

/-! ### Tables -/

/-- The heap. -/
def heap : Action Heap := fun m => (.ok m.heap, m)

theorem heap_apply (m : Machine) : heap m = (.ok m.heap, m) := rfl

/-- Replaces the heap. -/
def putHeap (h : Heap) : Action Unit := fun m => (.ok (), { m with heap := h })

/-- A new table. -/
def newTable : Action TableId := fun m => (.ok m.heap.alloc.1, { m with heap := m.heap.alloc.2 })

/-- Gives a table other contents. -/
def putTable (t : TableId) (contents : Table) : Action Unit := fun m =>
  (.ok (), { m with heap := m.heap.set t contents })

/-- The contents of a table. -/
def table (t : TableId) : Action Table := fun m => (.ok (m.heap.get t), m)

/-- Stores a value in a table, without metatables. -/
def rawSet (t : TableId) (key v : Value) : Action Unit := do
  let contents ← ofExcept ((← table t).rawSet key v)
  putTable t contents

/-- A write that the table takes. -/
theorem rawSet_of_ok {t : TableId} {key v : Value} {m : Machine} {contents : Table}
    (h : (m.heap.get t).rawSet key v = .ok contents) :
    rawSet t key v m = (.ok (), { m with heap := m.heap.set t contents }) := by
  have htable : table t m = (.ok (m.heap.get t), m) := rfl
  rw [rawSet, bind_of_ok _ htable, h]
  rfl

/-- Attaches a metatable to a table, or takes it away. -/
def attachMetatable (t : TableId) (m : Option TableId) : Action Unit := do
  putTable t ((← table t).setMetatable m)

/-! ### Functions -/

/-- A new function. -/
def newFunction (name : String) (code : Code) : Action Closure := fun m =>
  (.ok ⟨⟨m.functions⟩, name, code⟩, { m with functions := m.functions + 1 })

/-! ### Strings -/

/-- Gives a notice to the log. -/
def notice (n : Notice) : Action Unit := fun m => (.ok (), { m with log := n :: m.log })

/-- Gives a notice of the string that a cache dropped, if it did. -/
def noticeDropped : Option String → Action Unit
  | some s => notice (.dropped (Utf8.bytes s).length)
  | none => pure ()

/-- Asks the cache for the bytes of a string. -/
def askCache (s : String) : Action ByteCache.Answer := fun m =>
  let answer := m.cache.get s
  (.ok answer, { m with cache := answer.cache })

/-- The bytes of a string, by way of the cache. -/
def bytes (s : String) : Action (List UInt8) := do
  let answer ← askCache s
  noticeDropped answer.dropped
  pure answer.bytes

/-- The strings in the cache, the oldest first. -/
def cached : Action (List String) := fun m => (.ok m.cache.keys, m)

/-! ### Calls -/

/-- How many calls are under way. -/
def callDepth : Action Nat := fun m => (.ok m.depth, m)

/-- Runs an action as one more call under way. -/
def nested (x : Action α) : Action α := fun m =>
  match x { m with depth := m.depth + 1 } with
  | (r, m') => (r, { m' with depth := m'.depth - 1 })

/-- Records the start of a function. -/
def recordStart (name : String) (args : List Value) : Action Unit := fun m =>
  (.ok (), { m with trace := ⟨name, args, m.depth⟩ :: m.trace })

/-! ### Output -/

/-- The sink behind an outlet. -/
def outlet : Outlet → Machine → Sink
  | .sink, m => m.sink
  | .console, m => m.console

/-- Changes the sink behind an outlet. -/
def putOutlet : Outlet → Sink → Machine → Machine
  | .sink, s, m => { m with sink := s }
  | .console, s, m => { m with console := s }

/-- Prints to an outlet; a sink that the host holds cannot be used. -/
def print (o : Outlet) (bytes : List UInt8) : Action Unit := fun m =>
  if (outlet o m).held then raise (.internal "print sink is already borrowed") m
  else
    match (outlet o m).print bytes with
    | (s, none) => (.ok (), putOutlet o s m)
    | (s, some failure) => raise (.output failure.text) (putOutlet o s m)

theorem putOutlet_eq (o : Outlet) (s : Sink) (m : Machine) :
    ∃ sink console, putOutlet o s m = { m with sink, console } := by
  cases o with
  | sink => exact ⟨s, m.console, rfl⟩
  | console => exact ⟨m.sink, s, rfl⟩

/-- Nothing else changes than the sinks. -/
theorem print_snd (o : Outlet) (bytes : List UInt8) (m : Machine) :
    ∃ sink console, (print o bytes m).2 = { m with sink, console } := by
  unfold print
  split
  · exact ⟨m.sink, m.console, rfl⟩
  · split
    · exact putOutlet_eq o _ m
    · exact putOutlet_eq o _ m

/-! ### Registers -/

/-- The value of a register; nil when it has none. -/
def register (name : String) : Action Value := fun m =>
  (.ok ((m.registers.get? name).getD .nil), m)

/-- Gives a register a value. -/
def setRegister (name : String) (v : Value) : Action Unit := fun m =>
  (.ok (), { m with registers := m.registers.insert name v })

end Action

end LuaKernel
