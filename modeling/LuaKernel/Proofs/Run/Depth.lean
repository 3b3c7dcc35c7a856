import LuaKernel.Proofs.Run.Congruence

/-!
# The depth of calls

Over every run the depth of calls is balanced and bounded (`depth_balanced_and_bounded`): every
operation leaves it as it found it, however it ends; a function that a call starts runs at a depth
of at least one and at most the deepest level, and this depth is the number of the calls around it;
and a call at the deepest level fails, and runs nothing.

What a function finds when it starts is no part of what a run gives back.  So the run is watched: a
watched engine counts the calls around a function on its own (`watch`), compares its count with the
depth of the machine wherever a call starts a function, and does something else, anything, where
they differ or are out of bounds.  A watched run is the run itself.

A call can do three things only (`Engine.invoke_cases`).  From that follows what a call keeps, and
from what calls keep, by induction on the fuel, what whole runs keep.
-/

namespace LuaKernel

namespace Machine

/-- The configuration that the machine has, or would install when it is asked. -/
def limits (m : Machine) : Config := m.config.getD .standard

/-- The machine once its configuration was read. -/
def configured (m : Machine) : Machine := { m with config := some m.limits }

/-- The machine that a function of a call runs on; `log` has the notices so far. -/
def entered (m : Machine) (log : List Notice) : Machine :=
  { m.configured with depth := m.depth + 1, log }

/-- The machine after a call that was refused for its depth. -/
def overflowed (m : Machine) : Machine :=
  { m.configured with log := .depthReached m.depth :: m.log }

/-- The machine at another depth. -/
def atDepth (m : Machine) (depth : Nat) : Machine := { m with depth }

@[simp] theorem depth_atDepth (m : Machine) (k : Nat) : (m.atDepth k).depth = k := rfl

@[simp] theorem depth_prepared (m : Machine) (holdsSink : Bool) :
    (m.prepared holdsSink).depth = m.depth := rfl

@[simp] theorem depth_fresh (policy : SinkPolicy) (counters : CounterPolicy) :
    (fresh policy counters).depth = 0 := rfl

end Machine

/-! ### What a call can do -/

/-- What entering a value does, whichever engine does it: it finds that the value cannot be called,
or it runs one function. -/
theorem Engine.enter_cases (callee : Value) (args : List Value) (m : Machine) :
    (∀ (E : Engine) mode, E.enter mode callee args m =
      (.error (.error (.ofFault (.notCallable callee.kind))), m)) ∨
    ∃ f actuals log, ∀ (E : Engine) mode,
      E.enter mode callee args m = E.apply mode f actuals { m with log } := by
  cases callee with
  | function f => exact .inr ⟨f, args, m.log, fun _ _ => rfl⟩
  | nil | boolean _ | number _ | string _ | table _ =>
      simp only [enter, Bind.bind, Action.heap]
      generalize m.heap.metafield _ .call = handler
      cases handler with
      | function g => exact .inr ⟨g, _, _, fun _ _ => rfl⟩
      | nil | boolean _ | number _ | string _ | table _ => exact .inl fun _ _ => rfl

/-- The end of a call: one call less is under way. -/
def leave {α : Type} (r : Except Halt α × Machine) : Except Halt α × Machine :=
  (r.1, r.2.atDepth (r.2.depth - 1))

/-- A call at the deepest level is refused. -/
theorem Engine.invoke_of_deepest {m : Machine} (h : m.limits.maxCallDepth ≤ m.depth) (E : Engine)
    (mode : Mode) (callee : Value) (args : List Value) :
    E.invoke mode callee args m = (.error (.error (.ofFault .stackOverflow)), m.overflowed) :=
  congrFun (if_pos h) m.configured

/-- A call above the deepest level enters the value. -/
theorem Engine.invoke_of_lt {m : Machine} (h : m.depth < m.limits.maxCallDepth) (E : Engine)
    (mode : Mode) (callee : Value) (args : List Value) :
    E.invoke mode callee args m = leave (E.enter mode callee args (m.entered m.log)) :=
  congrFun (if_neg (Nat.not_le.2 h)) m.configured

/-- **A call does one of three things**, whichever engine makes it: it is refused for its depth, it
finds that the value cannot be called, or it runs one function. -/
theorem Engine.invoke_cases (callee : Value) (args : List Value) (m : Machine) :
    (∀ (E : Engine) mode, E.invoke mode callee args m =
      (.error (.error (.ofFault .stackOverflow)), m.overflowed)) ∨
    (∀ (E : Engine) mode, E.invoke mode callee args m =
      (.error (.error (.ofFault (.notCallable callee.kind))), m.configured)) ∨
    (m.depth < m.limits.maxCallDepth ∧ ∃ f actuals log, ∀ (E : Engine) mode,
      E.invoke mode callee args m = leave (E.apply mode f actuals (m.entered log))) := by
  rcases Nat.lt_or_ge m.depth m.limits.maxCallDepth with hlt | hge
  · rcases Engine.enter_cases callee args (m.entered m.log) with h | ⟨f, actuals, log, h⟩
    · refine .inr (.inl fun E mode => ?_)
      rw [E.invoke_of_lt hlt, h]
      rfl
    · refine .inr (.inr ⟨hlt, f, actuals, log, fun E mode => ?_⟩)
      rw [E.invoke_of_lt hlt, h]
      rfl
  · exact .inl fun E mode => E.invoke_of_deepest hge mode callee args

/-! ### Actions that keep the depth -/

namespace Action

/-- The depth is the same afterwards, however the action ends. -/
def KeepsDepth {α : Type} (x : Action α) : Prop := ∀ m, (x m).2.depth = m.depth

theorem KeepsDepth.bind {α β : Type} {x : Action α} {f : α → Action β} (hx : x.KeepsDepth)
    (hf : ∀ a, (f a).KeepsDepth) : (x >>= f).KeepsDepth :=
  bind_leads (ρ := fun m m' => m'.depth = m.depth) (fun h h' => h'.trans h) hx hf

end Action

/-- The primitive actions keep the depth. -/
theorem Primitive.keepsDepth {α : Type} {x : Action α} (h : Primitive x) : x.KeepsDepth :=
  fun m => (h.keeps m).1

/-- The actions of the machine keep the depth. -/
theorem Atomic.keepsDepth {α : Type} {x : Action α} (h : Atomic x) : x.KeepsDepth :=
  h.of_primitive (R := Action.KeepsDepth) Primitive.keepsDepth .bind

/-! ### Agreeing at a depth -/

/-- Two actions that do the same at a depth, and keep it. -/
def AgreeAt (k : Nat) {α : Type} (x y : Action α) : Prop :=
  ∀ m, m.depth = k → x m = y m ∧ (x m).2.depth = k

theorem Action.KeepsDepth.agreeAt {α : Type} {x : Action α} (h : x.KeepsDepth) (k : Nat) :
    AgreeAt k x x := fun m hm => ⟨rfl, (h m).trans hm⟩

/-- Two actions that agree at a depth leave it, so that what comes behind them agrees at it too. -/
theorem AgreeAt.bind {k : Nat} {α β : Type} {x y : Action α} {f g : α → Action β}
    (hx : AgreeAt k x y) (hf : ∀ a, AgreeAt k (f a) (g a)) : AgreeAt k (x >>= f) (y >>= g) := by
  intro m hm
  obtain ⟨heq, hk⟩ := hx m hm
  rcases hr : x m with ⟨e | a, m'⟩
  · rw [Action.bind_of_error f hr, Action.bind_of_error g (heq.symm.trans hr)]
    exact ⟨rfl, by rwa [hr] at hk⟩
  · rw [Action.bind_of_ok f hr, Action.bind_of_ok g (heq.symm.trans hr)]
    exact hf a m' (by rwa [hr] at hk)

/-- Agreeing at a depth is kept by all operations. -/
theorem fullCongruence_agreeAt (k : Nat) : FullCongruence (AgreeAt k) where
  atom h := h.keepsDepth.agreeAt k
  bind := AgreeAt.bind
  raise _ := Action.KeepsDepth.agreeAt (fun _ => rfl) k
  outOfFuel := Action.KeepsDepth.agreeAt (fun _ => rfl) k
  cached := Action.KeepsDepth.agreeAt (fun _ => rfl) k

/-- Catching goes on after a runtime error, at the same depth. -/
theorem Action.catchRuntime_agree {k : Nat} {α : Type} {x y : Action α} {handle : Value → Action α}
    {m : Machine} (hh : ∀ v, (handle v).KeepsDepth) (h : x m = y m ∧ (x m).2.depth = k) :
    catchRuntime x handle m = catchRuntime y handle m ∧ (catchRuntime x handle m).2.depth = k := by
  obtain ⟨heq, hk⟩ := h
  unfold catchRuntime
  rw [← heq]
  refine ⟨rfl, ?_⟩
  split
  · next payload m' hr =>
      rw [hh payload m']
      rwa [hr] at hk
  · exact hk

/-- Two engines whose functions agree where calls start them make calls that agree one level
higher. -/
theorem AgreeAt.invoke {E E' : Engine} {mode : Mode} {k : Nat}
    (h : ∀ f args m, m.depth = k + 1 → m.depth ≤ m.limits.maxCallDepth →
      E.apply mode f args m = E'.apply mode f args m ∧ (E.apply mode f args m).2.depth = k + 1)
    (callee : Value) (args : List Value) :
    AgreeAt k (E.invoke mode callee args) (E'.invoke mode callee args) := by
  intro m hm
  rcases Engine.invoke_cases callee args m with ho | hn | ⟨hlt, f, actuals, log, hf⟩
  · rw [ho, ho]
    exact ⟨rfl, hm⟩
  · rw [hn, hn]
    exact ⟨rfl, hm⟩
  · -- The function runs one level deeper, and leaving takes this level off again.
    obtain ⟨heq, hk⟩ := h f actuals (m.entered log) (congrArg (· + 1) hm) hlt
    rw [hf, hf, heq]
    rw [heq] at hk
    exact ⟨rfl, by rw [leave, Machine.depth_atDepth, hk, Nat.add_sub_cancel]⟩

/-- What a protected call does with an error that it caught keeps the depth. -/
theorem keepsDepth_caught (payload : Value) :
    (do Action.notice (.caught payload); return [.boolean false, payload] :
      Action (List Value)).KeepsDepth :=
  .bind (fun _ => rfl) fun _ _ => rfl

/-- Protected calls agree where the calls in them do. -/
theorem AgreeAt.protectedCall {E E' : Engine} {k : Nat} {callee : Value} {args : List Value}
    (h : AgreeAt k (E.invoke .guarded callee args) (E'.invoke .guarded callee args)) :
    AgreeAt k (E.protectedCall callee args) (E'.protectedCall callee args) := fun m hm =>
  Action.catchRuntime_agree keepsDepth_caught
    ((h.bind fun _ => (fullCongruence_agreeAt k).pure _) m hm)

/-! ### Watching -/

/-- Runs a function that a call starts only where as many calls are under way as `level` says, at
least one, and no more than the configuration allows; and does anything else elsewhere. -/
def checkpoint (alarm : Action Ret) (level : Nat) (x : Action Ret) : Action Ret := fun m =>
  if 1 ≤ m.depth ∧ m.depth = level ∧ m.depth ≤ m.limits.maxCallDepth then x m else alarm m

/-- An engine that counts for itself how many calls are under way, and passes the count on to the
functions it runs: `run level` runs a function around which there are so many calls, the one that
started it included. -/
def watch (alarm : Action Ret) (run : (level : Nat) → Closure → List Value → Action Ret)
    (probes level : Nat) : Engine where
  apply mode f args :=
    if mode = .inlined then run level f args
    else checkpoint alarm (level + 1) (run (level + 1) f args)
  probes

namespace Program

/-- Runs the code of a function with fuel, and watches the calls. -/
def watchedApply (P : Program) (alarm : Action Ret) :
    (fuel level : Nat) → Closure → List Value → Action Ret
  | 0, _, _, _ => Action.outOfFuel
  | fuel + 1, level, f, args =>
      P.runCode (watch alarm (P.watchedApply alarm fuel) fuel level) f args

/-- The engine of a program that watches the calls. -/
def watched (P : Program) (alarm : Action Ret) (fuel level : Nat) : Engine :=
  watch alarm (P.watchedApply alarm fuel) fuel level

variable (P : Program) (alarm : Action Ret) {fuel : Nat}

/-- The calls of the engine and of the watched one agree, if their functions do. -/
theorem invoke_agreeAt_watched {mode : Mode} (hmode : mode ≠ .inlined)
    (h : ∀ k f args, AgreeAt k (P.apply fuel f args) (P.watchedApply alarm fuel k f args))
    (k : Nat) (callee : Value) (args : List Value) :
    AgreeAt k ((P.engine fuel).invoke mode callee args)
      ((P.watched alarm fuel k).invoke mode callee args) := by
  refine AgreeAt.invoke (fun f args m hm hlim => ?_) callee args
  -- The call has compared the depth with the deepest level before it went one level deeper.
  have hpass : 1 ≤ m.depth ∧ m.depth = k + 1 ∧ m.depth ≤ m.limits.maxCallDepth :=
    ⟨hm ▸ Nat.succ_pos k, hm, hlim⟩
  have happly : (P.watched alarm fuel k).apply mode f args m =
      P.watchedApply alarm fuel (k + 1) f args m := by
    simp only [watched, watch, if_neg hmode, checkpoint, if_pos hpass]
  rw [happly]
  exact h (k + 1) f args m hm

/-- The calls of an engine that is watched agree with those of one that is not. -/
theorem related_watched
    (h : ∀ k f args, AgreeAt k (P.apply fuel f args) (P.watchedApply alarm fuel k f args))
    (k : Nat) : Related (AgreeAt k) (P.engine fuel) (P.watched alarm fuel k) where
  invoke := P.invoke_agreeAt_watched alarm (by decide) h k
  protectedCall callee args :=
    .protectedCall (P.invoke_agreeAt_watched alarm (by decide) h k callee args)
  probes := rfl

theorem perform_agreeAt_watched
    (h : ∀ k f args, AgreeAt k (P.apply fuel f args) (P.watchedApply alarm fuel k f args))
    (k : Nat) (vs : List Value) (op : Op) :
    AgreeAt k (op.perform (P.engine fuel) vs) (op.perform (P.watched alarm fuel k) vs) :=
  (fullCongruence_agreeAt k).performAny (P.related_watched alarm h k) (fun f args => h k f args)
    vs op

/-- A function runs in the same way whether it is watched or not, and keeps the depth. -/
theorem apply_agreeAt_watchedApply (fuel k : Nat) (f : Closure) (args : List Value) :
    AgreeAt k (P.apply fuel f args) (P.watchedApply alarm fuel k f args) := by
  induction fuel generalizing k f args with
  | zero => exact (fullCongruence_agreeAt k).outOfFuel
  | succ fuel ih =>
      exact (fullCongruence_agreeAt k).runCode (P.related_watched alarm ih k)
        (P.perform_agreeAt_watched alarm ih k) P f args

/-- A step does the same whether it is watched or not, and keeps the depth. -/
theorem step_agreeAt_watched (fuel k : Nat) (args : List Value) (s : Step) :
    AgreeAt k (s.run (Op.perform (P.engine fuel)) args)
      (s.run (Op.perform (P.watched alarm fuel k)) args) :=
  (fullCongruence_agreeAt k).step
    (P.perform_agreeAt_watched alarm (P.apply_agreeAt_watchedApply alarm fuel) k) args s

end Program

/-! ### Whole runs -/

/-- Everything that an engine does keeps the depth, however it ends. -/
structure Engine.Balanced (E : Engine) : Prop where
  call : ∀ callee args, (E.call callee args).KeepsDepth
  callOne : ∀ callee args, (E.callOne callee args).KeepsDepth
  callNone : ∀ callee args, (E.callNone callee args).KeepsDepth
  protectedCall : ∀ callee args, (E.protectedCall callee args).KeepsDepth
  getIndex : ∀ receiver key, (E.getIndex receiver key).KeepsDepth
  setIndex : ∀ receiver key v, (E.setIndex receiver key v).KeepsDepth
  length : ∀ v, (E.length v).KeepsDepth
  toText : ∀ v, (E.toText v).KeepsDepth
  equal : ∀ a b, (E.equal a b).KeepsDepth
  less : ∀ a b, (E.less a b).KeepsDepth
  lessEqual : ∀ a b, (E.lessEqual a b).KeepsDepth

/-- An action that agrees with another at every depth keeps the depth. -/
theorem Action.KeepsDepth.of_agreeAt {α : Type} {x : Action α} {y : Nat → Action α}
    (h : ∀ k, AgreeAt k x (y k)) : x.KeepsDepth := fun m => (h m.depth m rfl).2

namespace Program

variable (P : Program) (fuel : Nat)

theorem balanced_engine : (P.engine fuel).Balanced := by
  have F := fullCongruence_agreeAt
  have hE := P.related_watched Action.outOfFuel (P.apply_agreeAt_watchedApply Action.outOfFuel fuel)
  exact
    { call := fun callee args => .of_agreeAt fun k => (F k).call (hE k) callee args
      callOne := fun callee args => .of_agreeAt fun k => (F k).callOne (hE k) callee args
      callNone := fun callee args => .of_agreeAt fun k => (F k).callNone (hE k) callee args
      protectedCall := fun callee args => .of_agreeAt fun k => (hE k).protectedCall callee args
      getIndex := fun receiver key => .of_agreeAt fun k => (F k).getIndex (hE k) receiver key
      setIndex := fun receiver key v => .of_agreeAt fun k => (F k).setIndex (hE k) receiver key v
      length := fun v => .of_agreeAt fun k => (F k).length (hE k) (F k).outOfFuel v
      toText := fun v => .of_agreeAt fun k => (F k).toText (hE k) v
      equal := fun a b => .of_agreeAt fun k => (F k).equal (hE k) a b
      less := fun a b => .of_agreeAt fun k => (F k).less (hE k) a b
      lessEqual := fun a b => .of_agreeAt fun k => (F k).lessEqual (hE k) a b }

/-- A function keeps the depth. -/
theorem keepsDepth_apply (f : Closure) (args : List Value) : (P.apply fuel f args).KeepsDepth :=
  .of_agreeAt fun k => P.apply_agreeAt_watchedApply Action.outOfFuel fuel k f args

/-- A step of a program keeps the depth. -/
theorem keepsDepth_step (args : List Value) (s : Step) :
    (s.run (Op.perform (P.engine fuel)) args).KeepsDepth :=
  .of_agreeAt fun k => P.step_agreeAt_watched Action.outOfFuel fuel k args s

/-- The steps of a session keep the depth, from the first to the last. -/
theorem depth_performAll (m : Machine) (steps : List TopStep) :
    (P.performAll fuel m steps).2.depth = m.depth := by
  induction steps generalizing m with
  | nil => rfl
  | cons s rest ih => exact (ih _).trans (P.keepsDepth_step fuel [] s.step _)

end Program

/-- A host that opens an environment begins without calls. -/
theorem Machine.depth_opened (policy : SinkPolicy) (counters : CounterPolicy) :
    (Machine.opened policy counters).depth = 0 := by
  have hopen : (Library.openEnvironment .sink).KeepsDepth :=
    .of_agreeAt fun k => (fullCongruence_agreeAt k).openEnvironment .sink
  have hset : ∀ env, (Action.setRegister globalRegister (.table env)).KeepsDepth := fun _ _ => rfl
  have h := hopen.bind hset (Machine.fresh policy counters)
  rw [Machine.depth_fresh] at h
  simp only [Machine.opened, Machine.depth_prepared]
  exact h

/-- The machine after a protected call that was refused for its depth. -/
def Machine.caughtOverflow (m : Machine) : Machine :=
  { m.overflowed with log := .caught (.string "stack overflow") :: m.overflowed.log }

/-- **The depth of calls is balanced and bounded over whole runs.**  Everything that a program can
do keeps the depth, however it ends, and a host begins at depth zero.  Whatever `alarm` is, a run
that is watched from the present depth on is the run itself: so every function that a call starts
finds a depth of at least one and at most the deepest level, and as many calls around it as the
depth says.  And at the deepest level each call, by whichever engine, fails with a runtime error,
which a protected call catches. -/
theorem depth_balanced_and_bounded (P : Program) (fuel : Nat) :
    (P.engine fuel).Balanced ∧
    (∀ f args, (P.apply fuel f args).KeepsDepth) ∧
    (∀ args (s : Step), (s.run (Op.perform (P.engine fuel)) args).KeepsDepth) ∧
    (∀ m steps, (P.performAll fuel m steps).2.depth = m.depth) ∧
    (∀ policy counters, (Machine.fresh policy counters).depth = 0 ∧
      (Machine.opened policy counters).depth = 0) ∧
    (∀ alarm args (s : Step) m, s.run (Op.perform (P.watched alarm fuel m.depth)) args m =
      s.run (Op.perform (P.engine fuel)) args m) ∧
    ∀ (E : Engine) callee args m, m.limits.maxCallDepth ≤ m.depth →
      E.call callee args m = (.error (.error (.runtime (.string "stack overflow"))), m.overflowed) ∧
      E.callOne callee args m =
        (.error (.error (.runtime (.string "stack overflow"))), m.overflowed) ∧
      E.callNone callee args m =
        (.error (.error (.runtime (.string "stack overflow"))), m.overflowed) ∧
      E.protectedCall callee args m =
        (.ok [.boolean false, .string "stack overflow"], m.caughtOverflow) := by
  refine ⟨P.balanced_engine fuel, P.keepsDepth_apply fuel, P.keepsDepth_step fuel,
    P.depth_performAll fuel,
    fun policy counters => ⟨rfl, Machine.depth_opened policy counters⟩, ?_, ?_⟩
  · intro alarm args s m
    exact ((P.step_agreeAt_watched alarm fuel m.depth args s) m rfl).1.symm
  · intro E callee args m h
    have hcalled := E.invoke_of_deepest h .called callee args
    have hguarded := E.invoke_of_deepest h .guarded callee args
    refine ⟨Action.bind_of_error _ hcalled, Action.bind_of_error _ hcalled,
      Action.bind_of_error _ hcalled, ?_⟩
    unfold Engine.protectedCall Action.catchRuntime
    rw [Action.bind_of_error _ hguarded]
    rfl

/-- A machine with one call under way, and no more allowed. -/
def Machine.full : Machine := { depth := 1, config := some { maxCallDepth := 1 } }

/-- At the limit, the call of a value overflows, even of one that cannot be called. -/
theorem full_overflows :
    Machine.full.limits.maxCallDepth ≤ Machine.full.depth ∧
    ((Program.engine ⟨#[], []⟩ 1).call .nil []) Machine.full =
      (.error (.error (.runtime (.string "stack overflow"))), Machine.full.overflowed) :=
  ⟨Nat.le_refl 1, ((depth_balanced_and_bounded ⟨#[], []⟩ 1).2.2.2.2.2.2 _ .nil [] .full
    (Nat.le_refl 1)).1⟩

end LuaKernel
