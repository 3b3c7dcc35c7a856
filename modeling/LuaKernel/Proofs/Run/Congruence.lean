import LuaKernel.Script.Session

/-!
# Relations that all operations keep

Everything the kernel does is put together from a few actions of the machine, by doing one after the
other; only calls do more.  So a relation between actions that holds between each of these actions
and itself, and that doing one after the other keeps (`Congruence`), holds between two runs of every
operation, if it holds between the calls that the two runs make (`Related`).  The runs may differ in
their engines alone, which is where they differ in what a function does.

A few of the actions of the machine are put together in turn.  What is said of one action alone, and
is kept by doing one after the other, has to be shown of the primitive ones only
(`Atomic.of_primitive`).  None of these changes the depth, and none of them lacks fuel
(`Primitive.keeps`, `Primitive.ends`).

Two actions of the machine change a table as they are told, whatever it holds and whoever protects
it.  A relation that need not hold of these (`TameCongruence`) still holds between two runs of every
operation that does not use them.

Each result of this module is the one for an operation, and its proof follows the definition of the
operation.  The last ones are those for whole steps and for the code of a function
(`TameCongruence.step`, `Congruence.runCode`): what is left to a property of runs is to say what a
call keeps.  For a relation that does not look at the depth, nor at what is caught, that is little
(`KeptByCalls`).
-/

namespace LuaKernel

/-- The actions of the machine that the kernel is put together from, besides calls, and besides the
two that change a table as they are told. -/
inductive Tame : {α : Type} → Action α → Prop where
  | pure {α : Type} (a : α) : Tame (Pure.pure a : Action α)
  | raise {α : Type} (v : Value) : Tame (Action.raise (.runtime v) : Action α)
  | config : Tame Action.config
  | isConfigured : Tame Action.isConfigured
  | configure (c : Config) : Tame (Action.configure c)
  | heap : Tame Action.heap
  | newTable : Tame Action.newTable
  | table (t : TableId) : Tame (Action.table t)
  | setList (v : Value) (start : Int64) (vs : List Value) : Tame (Action.setList v start vs)
  | replaceMetatable (v m : Value) : Tame (Action.replaceMetatable v m)
  | newFunction (name : String) (code : Code) : Tame (Action.newFunction name code)
  | notice (n : Notice) : Tame (Action.notice n)
  | bytes (s : String) : Tame (Action.bytes s)
  | callDepth : Tame Action.callDepth
  | recordStart (name : String) (args : List Value) : Tame (Action.recordStart name args)
  | print (o : Outlet) (bytes : List UInt8) : Tame (Action.print o bytes)
  | register (name : String) : Tame (Action.register name)
  | setRegister (name : String) (v : Value) : Tame (Action.setRegister name v)

/-- The actions of the machine that the kernel is put together from, besides calls. -/
inductive Atomic : {α : Type} → Action α → Prop where
  | tame {α : Type} {x : Action α} (h : Tame x) : Atomic x
  | rawSet (t : TableId) (k v : Value) : Atomic (Action.rawSet t k v)
  | attachMetatable (t : TableId) (m : Option TableId) : Atomic (Action.attachMetatable t m)

/-- The actions that all of these are put together from. -/
inductive Primitive : {α : Type} → Action α → Prop where
  | pure {α : Type} (a : α) : Primitive (Pure.pure a : Action α)
  | raise {α : Type} (v : Value) : Primitive (Action.raise (.runtime v) : Action α)
  | advance (counter : Int64) : Primitive (Action.advance counter)
  | config : Primitive Action.config
  | isConfigured : Primitive Action.isConfigured
  | configure (c : Config) : Primitive (Action.configure c)
  | heap : Primitive Action.heap
  | putHeap (h : Heap) : Primitive (Action.putHeap h)
  | newTable : Primitive Action.newTable
  | table (t : TableId) : Primitive (Action.table t)
  | putTable (t : TableId) (contents : Table) : Primitive (Action.putTable t contents)
  | newFunction (name : String) (code : Code) : Primitive (Action.newFunction name code)
  | notice (n : Notice) : Primitive (Action.notice n)
  | askCache (s : String) : Primitive (Action.askCache s)
  | callDepth : Primitive Action.callDepth
  | recordStart (name : String) (args : List Value) : Primitive (Action.recordStart name args)
  | print (o : Outlet) (bytes : List UInt8) : Primitive (Action.print o bytes)
  | register (name : String) : Primitive (Action.register name)
  | setRegister (name : String) (v : Value) : Primitive (Action.setRegister name v)

/-- What holds of the primitive actions, and is kept by doing one action after the other, holds of
all actions of the machine. -/
theorem Atomic.of_primitive {R : ∀ {α : Type}, Action α → Prop}
    (primitive : ∀ {α : Type} {x : Action α}, Primitive x → R x)
    (bind : ∀ {α β : Type} {x : Action α} {f : α → Action β}, R x → (∀ a, R (f a)) → R (x >>= f))
    {α : Type} {x : Action α} (h : Atomic x) : R x := by
  have ofExcept : ∀ {α : Type} (r : Except Fault α), R (Action.ofExcept r) := by
    intro α r
    cases r with
    | ok a => exact primitive (.pure a)
    | error f => exact primitive (.raise _)
  have noticeDropped : ∀ dropped, R (Action.noticeDropped dropped) := by
    intro dropped
    cases dropped with
    | none => exact primitive (.pure ())
    | some s => exact primitive (.notice _)
  have rawSet : ∀ t k v, R (Action.rawSet t k v) := fun t _ _ =>
    bind (primitive (.table t)) fun _ => bind (ofExcept _) fun _ => primitive (.putTable t _)
  have storeFrom : ∀ t counter vs, R (Action.storeFrom t counter vs) := by
    intro t counter vs
    induction vs generalizing counter with
    | nil => exact bind (primitive (.advance counter)) fun _ => primitive (.pure ())
    | cons v vs ih =>
        exact bind (primitive (.advance counter)) fun _ => bind (rawSet t _ v) fun _ => ih _
  cases h with
  | rawSet t k v => exact rawSet t k v
  | attachMetatable t m => exact bind (primitive (.table t)) fun _ => primitive (.putTable t _)
  | tame h =>
      cases h with
      | setList v start vs =>
          exact bind (ofExcept _) fun t => storeFrom t start vs
      | replaceMetatable v m =>
          exact bind (primitive .heap) fun _ => bind (ofExcept _) fun h =>
            bind (primitive (.putHeap h)) fun _ => primitive (.pure v)
      | bytes s =>
          exact bind (primitive (.askCache s)) fun _ => bind (noticeDropped _) fun _ =>
            primitive (.pure _)
      | pure a => exact primitive (.pure a)
      | raise v => exact primitive (.raise v)
      | config => exact primitive .config
      | isConfigured => exact primitive .isConfigured
      | configure c => exact primitive (.configure c)
      | heap => exact primitive .heap
      | newTable => exact primitive .newTable
      | table t => exact primitive (.table t)
      | newFunction name code => exact primitive (.newFunction name code)
      | notice n => exact primitive (.notice n)
      | callDepth => exact primitive .callDepth
      | recordStart name args => exact primitive (.recordStart name args)
      | print o bytes => exact primitive (.print o bytes)
      | register name => exact primitive (.register name)
      | setRegister name v => exact primitive (.setRegister name v)

namespace Primitive

variable {α : Type} {x : Action α}

/-- No primitive action changes the depth, or what counters do when they overflow. -/
theorem keeps (h : Primitive x) (m : Machine) :
    (x m).2.depth = m.depth ∧ (x m).2.counters = m.counters := by
  cases h with
  | advance counter => rw [Action.advance_snd]; exact ⟨rfl, rfl⟩
  | configure c => rw [Action.configure_snd]; exact ⟨rfl, rfl⟩
  | print o bytes =>
      obtain ⟨sink, console, hprint⟩ := Action.print_snd o bytes m
      rw [hprint]
      exact ⟨rfl, rfl⟩
  | pure | raise | config | isConfigured | heap | putHeap | newTable | table | putTable
    | newFunction | notice | askCache | callDepth | recordStart | register | setRegister =>
      exact ⟨rfl, rfl⟩

/-- No primitive action lacks fuel, and a counter overflows only on a machine that it stops. -/
theorem ends (h : Primitive x) (m : Machine) :
    (x m).1 ≠ .error .outOfFuel ∧ ((x m).1 = .error .counterOverflow → m.counters = .stops) := by
  cases h with
  | advance counter =>
      unfold Action.advance
      split
      · next hover => exact ⟨nofun, fun _ => hover.1⟩
      · exact ⟨nofun, nofun⟩
  | configure c =>
      unfold Action.configure
      split
      · exact ⟨nofun, nofun⟩
      · exact ⟨nofun, nofun⟩
  | print o bytes =>
      unfold Action.print
      split
      · exact ⟨nofun, nofun⟩
      · split
        · exact ⟨nofun, nofun⟩
        · exact ⟨nofun, nofun⟩
  | pure | raise | config | isConfigured | heap | putHeap | newTable | table | putTable
    | newFunction | notice | askCache | callDepth | recordStart | register | setRegister =>
      exact ⟨nofun, nofun⟩

end Primitive

/-! ### Expressions -/

section

variable {R : ∀ {α : Type}, Action α → Action α → Prop}
  (atom : ∀ {α : Type} {x : Action α}, Atomic x → R x x)
  (bind : ∀ {α β : Type} {x y : Action α} {f g : α → Action β},
    R x y → (∀ a, R (f a) (g a)) → R (x >>= f) (y >>= g))

include atom bind

/-- A path is read by looking at one table after the other. -/
theorem rawPath_related (v : Value) (path : List String) :
    R (Action.rawPath v path) (Action.rawPath v path) := by
  induction path generalizing v with
  | nil => exact atom (.tame (.pure v))
  | cons k ks ih =>
      cases v with
      | table t => exact bind (atom (.tame (.table t))) fun _ => ih _
      | nil | boolean _ | number _ | string _ | function _ => exact atom (.tame (.pure _))

mutual

/-- An expression is evaluated by actions of the machine, and calls nothing. -/
theorem Expr.eval_related (args : List Value) : ∀ e : Expr, R (e.eval args) (e.eval args)
  | .nil | .boolean _ | .number _ | .string _ | .argument _ | .argumentCount | .stringMetatable =>
      atom (.tame (.pure _))
  | .register name => atom (.tame (.register name))
  | .global path => bind (atom (.tame (.register _))) fun _ => rawPath_related atom bind _ path
  | .list items =>
      bind (evalAll_related args items) fun _ => bind (atom (.tame .newTable)) fun _ =>
        bind (atom (.tame (.setList _ _ _))) fun _ => atom (.tame (.pure _))
  | .table entries metatable =>
      bind (atom (.tame .newTable)) fun t => bind (fill_related args t entries) fun _ =>
        bind (Expr.eval_related args metatable) fun _ =>
          bind (atom (.attachMetatable t _)) fun _ => atom (.tame (.pure _))
  | .function name _ => bind (atom (.tame (.newFunction name _))) fun _ => atom (.tame (.pure _))

/-- Expressions are evaluated from the first to the last. -/
theorem evalAll_related (args : List Value) :
    ∀ es : List Expr, R (evalAll args es) (evalAll args es)
  | [] => atom (.tame (.pure _))
  | e :: es =>
      bind (Expr.eval_related args e) fun _ => bind (evalAll_related args es) fun _ =>
        atom (.tame (.pure _))

/-- A table is filled by raw writes, each behind the evaluation of its key and its value. -/
theorem fill_related (args : List Value) (t : TableId) :
    ∀ es : List Entry, R (fill args t es) (fill args t es)
  | [] => atom (.tame (.pure _))
  | .mk key value :: rest =>
      bind (Expr.eval_related args key) fun _ => bind (Expr.eval_related args value) fun _ =>
        bind (atom (.rawSet t _ _)) fun _ => fill_related args t rest

end

end

/-! ### Congruences -/

/-- A relation between actions that doing one action after the other keeps, and that holds between
itself and each action of the machine that is tame, each store of a value, and each expression. -/
structure TameCongruence (R : ∀ {α : Type}, Action α → Action α → Prop) : Prop where
  bind : ∀ {α β : Type} {x y : Action α} {f g : α → Action β},
    R x y → (∀ a, R (f a) (g a)) → R (x >>= f) (y >>= g)
  tame : ∀ {α : Type} {x : Action α}, Tame x → R x x
  rawSet_of_ne_nil : ∀ t k v, v ≠ .nil → R (Action.rawSet t k v) (Action.rawSet t k v)
  eval : ∀ args (e : Expr), R (e.eval args) (e.eval args)

/-- A relation between actions that holds between each action of the machine and itself, and that
doing one action after the other keeps. -/
structure Congruence (R : ∀ {α : Type}, Action α → Action α → Prop) : Prop extends
    TameCongruence R where
  atom : ∀ {α : Type} {x : Action α}, Atomic x → R x x
  tame h := atom (.tame h)
  rawSet_of_ne_nil t k v _ := atom (.rawSet t k v)
  eval := Expr.eval_related atom bind

/-- A congruence that also holds between each failure of any kind and itself, and between two looks
into the byte cache. -/
structure FullCongruence (R : ∀ {α : Type}, Action α → Action α → Prop) : Prop extends
    Congruence R where
  raise : ∀ {α : Type} (e : Error), R (Action.raise e : Action α) (Action.raise e)
  outOfFuel : ∀ {α : Type}, R (Action.outOfFuel : Action α) Action.outOfFuel
  cached : R Action.cached Action.cached

/-- The operations that do more than actions of the machine and calls: those that fail for the host,
look into the byte cache, count a length, or run a function outside of a call. -/
def Op.reachesOut : Op → Bool
  | .failInternal | .failOutput | .cached | .length | .invoke => true
  | _ => false

/-- The operations that change a table as they are told. -/
def Op.isRaw : Op → Bool
  | .rawSet | .setIndex | .attachMetatable => true
  | _ => false

/-- Two engines whose calls are related, and which count lengths equally far. -/
structure Related (R : ∀ {α : Type}, Action α → Action α → Prop) (E E' : Engine) : Prop where
  invoke : ∀ callee args, R (E.invoke .called callee args) (E'.invoke .called callee args)
  protectedCall : ∀ callee args, R (E.protectedCall callee args) (E'.protectedCall callee args)
  probes : E.probes = E'.probes

/-- A relation that is kept when two actions are run one call deeper, and when errors of them are
caught. -/
structure KeptByCalls (R : ∀ {α : Type}, Action α → Action α → Prop) : Prop where
  nested : ∀ {α : Type} {x y : Action α}, R x y → R (Action.nested x) (Action.nested y)
  catchRuntime : ∀ {α : Type} {x y : Action α} {handle : Value → Action α}, R x y →
    (∀ v, R (handle v) (handle v)) → R (Action.catchRuntime x handle) (Action.catchRuntime y handle)

namespace TameCongruence

variable {R : ∀ {α : Type}, Action α → Action α → Prop} (C : TameCongruence R) {E E' : Engine}

include C

theorem pure {α : Type} (a : α) : R (Pure.pure a) (Pure.pure a) := C.tame (.pure a)

/-- A fault is an error at run time, and so is tame. -/
theorem fault {α : Type} (f : Fault) : R (Action.fault f : Action α) (Action.fault f) :=
  C.tame (.raise _)

/-- A check either gives its value or raises its fault. -/
theorem ofExcept {α : Type} (r : Except Fault α) : R (Action.ofExcept r) (Action.ofExcept r) := by
  cases r with
  | ok a => exact C.pure a
  | error f => exact C.fault f

/-- An action that only looks at the heap and goes on. -/
theorem withHeap {α : Type} {f g : Heap → Action α} (h : ∀ μ, R (f μ) (g μ)) :
    R (Action.heap >>= f) (Action.heap >>= g) :=
  C.bind (C.tame .heap) h

omit C in
/-- Two runs that take the same side of a test. -/
theorem ite {α : Type} {c : Prop} [Decidable c] {x x' y y' : Action α} (h : R x y) (h' : R x' y') :
    R (if c then x else x') (if c then y else y') := by
  split
  · exact h
  · exact h'

/-- A check of an argument, and what follows it. -/
theorem check {α β : Type} (r : Except Fault α) {f g : α → Action β} (h : ∀ a, R (f a) (g a)) :
    R (Action.ofExcept r >>= f) (Action.ofExcept r >>= g) :=
  C.bind (C.ofExcept r) h

/-- A handler has to give a string or a number. -/
theorem textOfResult (v : Value) : R (Engine.textOfResult v) (Engine.textOfResult v) := by
  cases v with
  | string s => exact C.pure s
  | number x => exact C.pure _
  | nil | boolean _ | table _ | function _ => exact C.fault _

/-- A look at a table, and what follows it. -/
theorem withTable {α : Type} (v : Value) {f g : Table → Action α}
    (h : ∀ contents, R (f contents) (g contents)) :
    R (wantTable v >>= fun t => Action.table t >>= f)
      (wantTable v >>= fun t => Action.table t >>= g) :=
  C.check _ fun t => C.bind (C.tame (.table t)) h

/-! ### Library functions that call nothing -/

/-- Two runs of an assertion, which gives its arguments back or raises the second one. -/
theorem assert (args : List Value) : R (Library.assert args) (Library.assert args) := by
  refine ite (C.pure _) ?_
  cases args[1]? with
  | none => exact C.fault _
  | some message => exact C.tame (.raise message)

/-- Two runs of what begins an iteration, which only checks that its argument is a table. -/
theorem ipairs (iterator : FunctionId) (args : List Value) :
    R (Library.ipairs iterator args) (Library.ipairs iterator args) :=
  C.check _ fun _ => C.pure _

theorem select (args : List Value) : R (Library.select args) (Library.select args) := by
  unfold Library.select
  split
  · exact C.fault _
  · exact C.pure _
  · exact C.check _ fun _ => C.pure _

theorem type (args : List Value) : R (Library.type args) (Library.type args) := by
  cases args with
  | nil => exact C.fault _
  | cons v args => exact C.pure _

theorem tonumber (args : List Value) : R (Library.tonumber args) (Library.tonumber args) := by
  cases args with
  | nil => exact C.fault _
  | cons v args => exact C.pure _

/-- Two replacements of a metatable: the action is tame, since it refuses where there
is protection. -/
theorem setmetatable (args : List Value) :
    R (Library.setmetatable args) (Library.setmetatable args) :=
  ite (C.check _ fun _ => C.bind (C.tame (.replaceMetatable _ _)) fun _ => C.pure _) (C.fault _)

theorem rawget (args : List Value) : R (Library.rawget args) (Library.rawget args) :=
  C.check _ fun t => C.bind (C.tame (.table t)) fun _ => C.pure _

/-- Two raw lengths: that of a table looks at the table, and that of a string at its bytes. -/
theorem rawlen (args : List Value) : R (Library.rawlen args) (Library.rawlen args) := by
  unfold Library.rawlen
  split
  · exact C.bind (C.tame (.table _)) fun _ => C.pure _
  · exact C.bind (C.tame (.bytes _)) fun _ => C.pure _
  · exact C.fault _

/-- Two runs of `byte`, which asks for the bytes of its string behind all checks. -/
theorem byte (args : List Value) : R (Library.byte args) (Library.byte args) :=
  C.check _ fun s => C.check _ fun _ => C.check _ fun _ =>
    C.bind (C.tame (.bytes s)) fun _ => C.pure _

theorem char (args : List Value) : R (Library.char args) (Library.char args) :=
  C.check _ fun _ => C.pure _

theorem len (args : List Value) : R (Library.len args) (Library.len args) :=
  C.check _ fun s => C.bind (C.tame (.bytes s)) fun _ => C.pure _

/-- Two runs of `sub`, which asks for the bytes of its string before it checks the positions. -/
theorem sub (args : List Value) : R (Library.sub args) (Library.sub args) :=
  C.check _ fun s => C.bind (C.tame (.bytes s)) fun _ =>
    C.check _ fun _ => C.check _ fun _ => C.pure _

/-! ### Environments -/

/-- Two registrations of a library function: what is stored is a new function, so it is not nil. -/
theorem registerOne (t : TableId) (b : Builtin) :
    R (Library.register t b) (Library.register t b) :=
  C.bind (C.tame (.newFunction _ _)) fun _ => C.rawSet_of_ne_nil _ _ _ nofun

theorem registerAll (t : TableId) (bs : List Builtin) :
    R (Library.registerAll t bs) (Library.registerAll t bs) := by
  induction bs with
  | nil => exact C.pure _
  | cons b bs ih => exact C.bind (C.registerOne t b) fun _ => ih

/-- Two environments that are made: of new tables, with functions in them. -/
theorem openEnvironment (outlet : Outlet) :
    R (Library.openEnvironment outlet) (Library.openEnvironment outlet) := by
  refine C.bind (C.tame .newTable) fun env => C.bind (C.rawSet_of_ne_nil _ _ _ nofun) fun _ =>
    C.bind (C.tame .config) fun _ => C.bind (C.rawSet_of_ne_nil _ _ _ nofun) fun _ =>
    C.bind ?_ fun _ => C.bind ?_ fun _ => C.bind (C.tame (.notice _)) fun _ => C.pure _
  · exact C.bind (C.registerAll _ _) fun _ => C.bind (C.tame (.newFunction _ _)) fun _ =>
      C.bind (C.registerOne _ _) fun _ => C.registerOne _ _
  · exact C.bind (C.tame .newTable) fun _ => C.bind (C.registerAll _ _) fun _ =>
      C.bind (C.rawSet_of_ne_nil _ _ _ nofun) fun _ =>
      C.bind (C.rawSet_of_ne_nil _ _ _ nofun) fun _ => C.tame (.notice _)

/-! ### Steps -/

/-- Two evaluations of the arguments of an operation, from the first to the last. -/
theorem evalArgs (args : List Value) (actuals : List Arg) :
    R (LuaKernel.evalArgs args actuals) (LuaKernel.evalArgs args actuals) := by
  induction actuals with
  | nil => exact C.pure _
  | cons a rest ih =>
      cases a with
      | one e => exact C.bind (C.eval args e) fun _ => C.bind ih fun _ => C.pure _
      | rest start => exact C.bind ih fun _ => C.pure _

theorem storeEach (registers : List String) (vs : List Value) :
    R (LuaKernel.storeEach registers vs) (LuaKernel.storeEach registers vs) := by
  induction registers generalizing vs with
  | nil => exact C.pure _
  | cons r rs ih => exact C.bind (C.tame (.setRegister r _)) fun _ => ih _

/-- Two stores of the results of a step: wherever they go, registers are set, and nothing else. -/
theorem store (vs : List Value) (target : Target) : R (target.store vs) (target.store vs) := by
  cases target with
  | nowhere => exact C.pure _
  | first r => exact C.tame (.setRegister r _)
  | each rs => exact C.storeEach rs vs

/-- Two repetitions of related blocks, each until the block returns. -/
theorem repeatBlock {x y : Action (Option Ret)} (h : R x y) (n : Nat) :
    R (LuaKernel.repeatBlock x n) (LuaKernel.repeatBlock y n) := by
  induction n with
  | zero => exact C.pure _
  | succ n ih =>
      refine C.bind h fun r => ?_
      cases r with
      | none => exact ih
      | some r => exact C.pure _

omit C

variable {act act' : List Value → Op → Action Answer}

mutual

/-- Two runs of a step, if their operations are related. -/
theorem step (C : TameCongruence R) (h : ∀ vs op, R (act vs op) (act' vs op)) (args : List Value) :
    ∀ s : Step, R (s.run act args) (s.run act' args)
  | .mk verb actuals target => by
      refine C.bind (C.evalArgs args actuals) fun vs =>
        C.bind (verbRun C h args vs verb) fun c => ?_
      cases c with
      | done a => exact C.bind (C.store a.toList target) fun _ => C.pure _
      | returned r => exact C.pure _

/-- Two runs of what a step does: an operation, a return, or a block of further steps. -/
theorem verbRun (C : TameCongruence R) (h : ∀ vs op, R (act vs op) (act' vs op))
    (args vs : List Value) : ∀ v : Verb, R (v.run act args vs) (v.run act' args vs)
  | .op op => C.bind (h vs op) fun _ => C.pure _
  | .returnAll | .returnOne => C.pure _
  | .branch yes no =>
      ite (C.bind (block C h args yes) fun _ => C.pure _)
        (C.bind (block C h args no) fun _ => C.pure _)
  | .loop count body => C.bind (C.repeatBlock (block C h args body) count) fun _ => C.pure _

/-- Two runs of a block, one step after the other, until a step returns. -/
theorem block (C : TameCongruence R) (h : ∀ vs op, R (act vs op) (act' vs op)) (args : List Value) :
    ∀ steps : List Step, R (runBlock act args steps) (runBlock act' args steps)
  | [] => C.pure _
  | s :: rest => by
      refine C.bind (step C h args s) fun c => ?_
      cases c with
      | done a => exact block C h args rest
      | returned r => exact C.pure _

end

include C

/-- Two runs of a body, if their operations are related. -/
theorem prototypeRun (h : ∀ vs op, R (act vs op) (act' vs op)) (p : Prototype) (name : String)
    (args : List Value) : R (p.run act name args) (p.run act' name args) := by
  have hbody : R (do return (← runBlock act args p.body).getD .none)
      (do return (← runBlock act' args p.body).getD .none) :=
    C.bind (C.block h args p.body) fun _ => C.pure _
  exact ite (C.bind (C.tame (.recordStart name args)) fun _ => hbody) hbody

/-! ### Calls -/

/-- Two calls, if the functions are related that they can start. -/
theorem invoke (K : KeptByCalls R) {mode : Mode}
    (h : ∀ f args, R (E.apply mode f args) (E'.apply mode f args)) (callee : Value)
    (args : List Value) : R (E.invoke mode callee args) (E'.invoke mode callee args) := by
  have henter : R (E.enter mode callee args) (E'.enter mode callee args) := by
    cases callee with
    | function f => exact h f args
    | nil | boolean _ | number _ | string _ | table _ =>
        refine C.withHeap fun μ => ?_
        split
        · exact C.bind (C.tame (.notice _)) fun _ => h _ _
        · exact C.fault _
  exact C.bind (C.tame .config) fun c => C.bind (C.tame .callDepth) fun depth =>
    ite (C.bind (C.tame (.notice _)) fun _ => C.fault _) (K.nested henter)

/-- Two engines, if their functions are related. -/
theorem related (K : KeptByCalls R)
    (h : ∀ mode f args, R (E.apply mode f args) (E'.apply mode f args))
    (hprobes : E.probes = E'.probes) : Related R E E' where
  invoke := C.invoke K (h .called)
  protectedCall callee args :=
    K.catchRuntime (C.bind (C.invoke K (h .guarded) callee args) fun _ => C.pure _)
      fun _ => C.bind (C.tame (.notice _)) fun _ => C.pure _
  probes := hprobes

variable (hE : Related R E E')

include hE

/-- Two calls: to the relation, a call is no more than the invocation that it is. -/
theorem call (callee : Value) (args : List Value) : R (E.call callee args) (E'.call callee args) :=
  C.bind (hE.invoke callee args) fun _ => C.pure _

theorem callOne (callee : Value) (args : List Value) :
    R (E.callOne callee args) (E'.callOne callee args) :=
  C.bind (hE.invoke callee args) fun _ => C.pure _

theorem callNone (callee : Value) (args : List Value) :
    R (E.callNone callee args) (E'.callNone callee args) :=
  C.bind (hE.invoke callee args) fun _ => C.pure _

/-! ### Access -/

/-- Two reads: both find the same, and differ in the call of a handler only. -/
theorem getIndex (receiver key : Value) :
    R (E.getIndex receiver key) (E'.getIndex receiver key) := by
  refine C.bind (C.tame .config) fun c => C.withHeap fun μ => ?_
  cases μ.findIndex key c.maxMetaChain receiver with
  | value v => exact C.pure v
  | refused v => exact C.fault _
  | handler f v => exact C.bind (C.tame (.notice _)) fun _ => C.callOne hE _ _
  | tooLong => exact C.bind (C.tame (.notice _)) fun _ => C.fault _

/-! ### Operators -/

/-- Counting gives up when it has used up its probes. -/
theorem countFrom (hfuel : R (Action.outOfFuel : Action Nat) Action.outOfFuel) (v : Value)
    (probes n : Nat) : R (E.countFrom v probes n) (E'.countFrom v probes n) := by
  induction probes generalizing n with
  | zero => exact hfuel
  | succ probes ih =>
      exact C.bind (C.getIndex hE v _) fun entry => ite (C.pure n) (ih (n + 1))

/-- Two lengths: given by the call of a handler, or counted by reads, for which there has to be
fuel. -/
theorem length (hfuel : R (Action.outOfFuel : Action Nat) Action.outOfFuel) (v : Value) :
    R (E.length v) (E'.length v) := by
  cases v with
  | string s => exact C.bind (C.tame (.bytes s)) fun _ => C.pure _
  | table t =>
      refine C.withHeap fun μ => ite ?_ (C.callOne hE _ _)
      rw [hE.probes]
      exact C.bind (C.countFrom hE hfuel _ _ _) fun _ => C.pure _
  | nil | boolean _ | number _ | function _ => exact C.fault _

/-- Two conversions of a value to a text, which a handler may do. -/
theorem toText (v : Value) : R (E.toText v) (E'.toText v) := by
  cases v with
  | table t =>
      refine C.withHeap fun μ => ite (C.pure _) ?_
      exact C.bind (C.callOne hE _ _) fun _ => C.textOfResult _
  | nil | boolean _ | number _ | string _ | function _ => exact C.pure _

/-- Two conversions of values to texts, one value after the other. -/
theorem toTexts (vs : List Value) : R (E.toTexts vs) (E'.toTexts vs) := by
  induction vs with
  | nil => exact C.pure _
  | cons v vs ih => exact C.bind (C.toText hE v) fun _ => C.bind ih fun _ => C.pure _

/-- A truth value from a handler. -/
theorem truthOf (handler : Value) (args : List Value) (f : Value → Bool) :
    R (do return f (← E.callOne handler args)) (do return f (← E'.callOne handler args)) :=
  C.bind (C.callOne hE handler args) fun _ => C.pure _

/-- Two tests for equality: a handler is asked about two tables, and else there is no call. -/
theorem equal (a b : Value) : R (E.equal a b) (E'.equal a b) := by
  refine ite (C.pure _) (ite ?_ (C.pure _))
  exact C.withHeap fun μ => ite (C.pure _) (C.truthOf hE _ _ _)

/-- Two comparisons: numbers and strings are ordered without a call, all else by a handler. -/
theorem less (a b : Value) : R (E.less a b) (E'.less a b) := by
  unfold Engine.less
  split
  · exact C.pure _
  · exact C.pure _
  · exact C.withHeap fun μ => ite (C.fault _) (C.truthOf hE _ _ _)

/-- Two comparisons that admit equality, for which the strict order may stand in. -/
theorem lessEqual (a b : Value) : R (E.lessEqual a b) (E'.lessEqual a b) := by
  unfold Engine.lessEqual
  split
  · exact C.pure _
  · exact C.pure _
  · exact C.withHeap fun μ =>
      ite (C.truthOf hE _ _ _) (ite (C.truthOf hE _ _ (!·.isTruthy)) (C.fault _))

/-! ### Library functions -/

/-- Two protected calls from the library, which give their results behind a flag. -/
theorem pcall (args : List Value) : R (Library.pcall E args) (Library.pcall E' args) := by
  cases args with
  | nil => exact C.fault _
  | cons callee args => exact C.bind (hE.protectedCall callee args) fun _ => C.pure _

/-- Two steps of an iteration, which read the next position. -/
theorem ipairsIterator (args : List Value) :
    R (Library.ipairsIterator E args) (Library.ipairsIterator E' args) :=
  C.check _ fun _ => C.bind (C.getIndex hE _ _) fun _ => C.pure _

theorem tostring (args : List Value) : R (Library.tostring E args) (Library.tostring E' args) := by
  cases args with
  | nil => exact C.fault _
  | cons v args => exact C.bind (C.toText hE v) fun _ => C.pure _

/-- Two runs of `print`: the conversions may call handlers, and what is printed then is the same. -/
theorem print (outlet : Outlet) (args : List Value) :
    R (Library.print E outlet args) (Library.print E' outlet args) :=
  C.bind (C.toTexts hE args) fun _ => C.bind (C.tame (.print outlet _)) fun _ => C.pure _

/-- Two runs of a library function, if raw stores are related. -/
theorem builtin (b : Builtin) (args : List Value)
    (hraw : b = .rawset → R (Library.rawset args) (Library.rawset args)) :
    R (b.run E args) (b.run E' args) := by
  cases b with
  | assert => exact C.assert args
  | error => exact C.tame (.raise _)
  | pcall => exact C.pcall hE args
  | select => exact C.select args
  | type => exact C.type args
  | tostring => exact C.tostring hE args
  | tonumber => exact C.tonumber args
  | setmetatable => exact C.setmetatable args
  | getmetatable => exact C.withHeap fun _ => C.pure _
  | rawget => exact C.rawget args
  | rawset => exact hraw rfl
  | rawequal => exact C.pure _
  | rawlen => exact C.rawlen args
  | ipairs iterator => exact C.ipairs iterator args
  | ipairsIterator => exact C.ipairsIterator hE args
  | print outlet => exact C.print hE outlet args
  | byte => exact C.byte args
  | char => exact C.char args
  | len => exact C.len args
  | sub => exact C.sub args

/-! ### Operations of a program -/

/-- Two runs of an operation of a program, if those are related that reach out or are raw. -/
theorem perform (op : Op) (args : List Value)
    (hout : op.reachesOut = true → R (op.perform E args) (op.perform E' args))
    (hraw : op.isRaw = true → R (op.perform E args) (op.perform E' args)) :
    R (op.perform E args) (op.perform E' args) := by
  cases op with
  | rawSet | setIndex | attachMetatable => exact hraw rfl
  | failInternal | failOutput | cached | length | invoke => exact hout rfl
  | give | add | inspect | describe | numberText | toInteger | rawEqual | key | keyEqual =>
      exact C.pure _
  | decode | metafieldKey | toNumber | readNumeral => exact C.pure _
  | raise => exact C.tame (.raise _)
  | rawGet | rawGetInt | rawGetString | attachedMetatable | probe | measure =>
      exact C.withTable _ fun _ => C.pure _
  | bytes => exact C.bind (C.tame (.bytes _)) fun _ => C.pure _
  | getIndex => exact C.bind (C.getIndex hE _ _) fun _ => C.pure _
  | setList start => exact C.bind (C.tame (.setList _ _ _)) fun _ => C.pure _
  | toText => exact C.bind (C.toText hE _) fun _ => C.pure _
  | equal => exact C.bind (C.equal hE _ _) fun _ => C.pure _
  | less => exact C.bind (C.less hE _ _) fun _ => C.pure _
  | lessEqual => exact C.bind (C.lessEqual hE _ _) fun _ => C.pure _
  | getMetatable | metatableOf | metafield => exact C.withHeap fun _ => C.pure _
  | setMetatable => exact C.bind (C.tame (.replaceMetatable _ _)) fun _ => C.pure _
  | call => exact C.bind (C.call hE _ _) fun _ => C.pure _
  | callOne => exact C.bind (C.callOne hE _ _) fun _ => C.pure _
  | callNone => exact C.bind (C.callNone hE _ _) fun _ => C.pure _
  | protectedCall => exact C.bind (hE.protectedCall _ _) fun _ => C.pure _
  | callDepth => exact C.bind (C.tame .callDepth) fun _ => C.pure _
  | checkNumber | checkString | checkTable | checkInteger | optInteger =>
      exact C.check _ fun _ => C.pure _
  | config => exact C.bind (C.tame .config) fun _ => C.pure _
  | isConfigured => exact C.bind (C.tame .isConfigured) fun _ => C.pure _
  | configure c => exact C.bind (C.tame (.configure c)) fun _ => C.pure _
  | openEnvironment | openConsole => exact C.bind (C.openEnvironment _) fun _ => C.pure _

/-- Two runs of an operation that reaches out, if failures of any kind are related, and what runs as
part of the present call. -/
theorem performReaching
    (hraise : ∀ {α : Type} (e : Error), R (Action.raise e : Action α) (.raise e))
    (hfuel : R (Action.outOfFuel : Action Nat) .outOfFuel)
    (hin : ∀ f args, R (E.apply .inlined f args) (E'.apply .inlined f args)) {op : Op}
    {args : List Value} (hout : op.reachesOut = true)
    (hcached : op = .cached → R (op.perform E args) (op.perform E' args)) :
    R (op.perform E args) (op.perform E' args) := by
  cases op with
  | failInternal | failOutput => exact hraise _
  | cached => exact hcached rfl
  | length => exact C.bind (C.length hE hfuel _) fun _ => C.pure _
  | invoke =>
      unfold Op.perform Op.act
      cases argument args 0 with
      | function f => exact C.bind (hin f _) fun _ => C.pure _
      | nil | boolean _ | number _ | string _ | table _ => exact C.fault _
  | _ => exact absurd hout Bool.false_ne_true

end TameCongruence

namespace Congruence

variable {R : ∀ {α : Type}, Action α → Action α → Prop} (C : Congruence R) {E E' : Engine}

include C

/-- Two runs of `rawset`, which is a raw write behind the check of its target. -/
theorem rawset (args : List Value) : R (Library.rawset args) (Library.rawset args) :=
  C.check _ fun t => C.bind (C.atom (.rawSet t _ _)) fun _ => C.pure _

variable (hE : Related R E E')

include hE

/-- Two writes: both find the same, which is a table for a raw write, a handler to call, or an
error. -/
theorem setIndex (receiver key v : Value) :
    R (E.setIndex receiver key v) (E'.setIndex receiver key v) := by
  refine C.bind (C.tame .config) fun c => C.withHeap fun μ => ?_
  cases μ.findNewIndex key c.maxMetaChain receiver with
  | table t => exact C.atom (.rawSet t key v)
  | refused r => exact C.fault _
  | handler f r => exact C.bind (C.tame (.notice _)) fun _ => C.callNone hE _ _
  | tooLong => exact C.bind (C.tame (.notice _)) fun _ => C.fault _

/-- Two runs of a library function. -/
theorem builtin (b : Builtin) (args : List Value) : R (b.run E args) (b.run E' args) :=
  C.toTameCongruence.builtin hE b args fun _ => C.rawset args

/-- Two runs of an operation of a program. -/
theorem perform (op : Op) (args : List Value)
    (hout : op.reachesOut = true → R (op.perform E args) (op.perform E' args)) :
    R (op.perform E args) (op.perform E' args) := by
  refine C.toTameCongruence.perform hE op args hout fun hraw => ?_
  cases op with
  | rawSet => exact C.check _ fun t => C.bind (C.atom (.rawSet t _ _)) fun _ => C.pure _
  | setIndex => exact C.bind (C.setIndex hE _ _ _) fun _ => C.pure _
  | attachMetatable =>
      exact C.check _ fun t => C.bind (C.atom (.attachMetatable t _)) fun _ => C.pure _
  | _ => exact absurd hraw Bool.false_ne_true

/-- Two runs of the code of a function. -/
theorem runCode (hop : ∀ vs op, R (Op.perform E vs op) (Op.perform E' vs op)) (P : Program)
    (f : Closure) (args : List Value) : R (P.runCode E f args) (P.runCode E' f args) := by
  unfold Program.runCode
  cases f.code with
  | builtin b => exact C.builtin hE b args
  | script i => exact C.prototypeRun hop (P.prototype i) f.name args

end Congruence

namespace FullCongruence

variable {R : ∀ {α : Type}, Action α → Action α → Prop} (F : FullCongruence R) {E E' : Engine}
  (hE : Related R E E')

include F hE

/-- Two runs of any operation of a program, if what runs as part of the present call is
related too. -/
theorem performAny (hin : ∀ f args, R (E.apply .inlined f args) (E'.apply .inlined f args))
    (args : List Value) (op : Op) : R (op.perform E args) (op.perform E' args) := by
  have C := F.toCongruence
  refine C.perform hE op args fun hout => ?_
  refine C.performReaching hE F.raise F.outOfFuel hin hout fun hcached => ?_
  subst hcached
  exact C.bind F.cached fun _ => C.pure _

end FullCongruence

end LuaKernel
