import LuaKernel.Proofs.Run.Depth

/-!
# How errors travel

An error that a function fails with passes through everything around it unchanged
(`errors_pass_unchanged`): through steps, operations, handlers and library functions up to the
nearest protected call, which gives back the very value that the error carries; and, when it is no
runtime error, through the protected calls too, up to the top of the program.  Nothing runs on the
way: the machine at the end is the one that the function left behind, at the depth of what was
around it.

To be around a function that fails is to have an outcome that hinges on it.  So a failing function
is singled out by the point of the run where it starts (`Failing`), and the run is compared with all
runs that do something else at this point and are alike otherwise (`Program.detoured`).  If one of
them ends differently, the run was around the point, and then it ends with the error.

Either two runs do the same, or the first ends with the error: this relation (`PassesAt`) is kept by
all operations, since whatever follows an error is not run.
-/

namespace LuaKernel

/-- A function that fails: the point of a run at which it starts, the error, and the machine that it
leaves behind. -/
structure Failing (P : Program) where
  fuel : Nat
  function : Closure
  args : List Value
  before : Machine
  error : Error
  after : Machine
  fails : P.apply fuel function args before = (.error (.error error), after)

namespace Failing

variable {P : Program} (s : Failing P)

/-- Whether a function starts at the point. -/
def StartsAt (fuel : Nat) (f : Closure) (args : List Value) (m : Machine) : Prop :=
  fuel = s.fuel ∧ f = s.function ∧ args = s.args ∧ m = s.before

/-- How everything around the function ends: with the same error, and the machine that the function
left behind, at a depth. -/
def ending {α : Type} (depth : Nat) : Except Halt α × Machine :=
  (.error (.error s.error), s.after.atDepth depth)

/-- The machine after a protected call that caught the error. -/
def caught (payload : Value) (depth : Nat) : Machine :=
  { s.after.atDepth depth with log := .caught payload :: s.after.log }

/-- A function that fails keeps the depth too. -/
theorem depth_after : s.after.depth = s.before.depth := by
  have h := P.keepsDepth_apply s.fuel s.function s.args s.before
  rwa [s.fails] at h

theorem fails_eq_ending : P.apply s.fuel s.function s.args s.before = s.ending s.before.depth := by
  rw [s.fails, ending, ← s.depth_after]
  rfl

end Failing

/-- How functions are run in each mode: under a protected call that is shielded in the first way,
and else in the second. -/
def unlessShielded (shielded : Bool) (plain other : Closure → List Value → Action Ret)
    (mode : Mode) : Closure → List Value → Action Ret :=
  if shielded = true ∧ mode = .guarded then plain else other

namespace Program

open Classical in
/-- Runs the code of a function with fuel, but does `alt` where the failing function starts.  What
is run under a protected call can be shielded: it is then run as it is. -/
noncomputable def detouredApply (P : Program) (s : Failing P) (alt : Action Ret) (shielded : Bool) :
    (fuel : Nat) → Closure → List Value → Action Ret
  | 0, _, _ => Action.outOfFuel
  | fuel + 1, f, args => fun m =>
    if s.StartsAt (fuel + 1) f args m then alt m
    else
      P.runCode ⟨unlessShielded shielded (P.apply fuel) (P.detouredApply s alt shielded fuel), fuel⟩
        f args m

/-- The engine that does `alt` where the failing function starts. -/
noncomputable def detoured (P : Program) (s : Failing P) (alt : Action Ret) (shielded : Bool)
    (fuel : Nat) : Engine :=
  ⟨unlessShielded shielded (P.apply fuel) (P.detouredApply s alt shielded fuel), fuel⟩

/-- The engine of the nearest protected call: the failing function is under this call, and not
under another one within it. -/
noncomputable def detouredBelow (P : Program) (s : Failing P) (alt : Action Ret) (fuel : Nat) :
    Engine :=
  ⟨fun _ => P.detouredApply s alt true fuel, fuel⟩

end Program

/-! ### Catching -/

namespace Action

variable {α : Type} {x : Action α} {handle : Value → Action α} {m m' : Machine}

/-- An error that is not one of the run time is not caught. -/
theorem catchRuntime_of_fatal {e : Error} (h : x m = (.error (.error e), m'))
    (he : e.isRecoverable = false) : catchRuntime x handle m = (.error (.error e), m') := by
  refine (catchRuntime_of_ne (fun v hv => ?_) handle).trans h
  rw [h] at hv
  cases hv
  exact absurd he Bool.noConfusion

end Action

/-! ### Passing an error on -/

/-- Two actions that do the same at a depth, and keep it, unless the first passes the error on. -/
def PassesAt {P : Program} (s : Failing P) (k : Nat) {α : Type} (x y : Action α) : Prop :=
  ∀ m, m.depth = k → (x m = y m ∧ (x m).2.depth = k) ∨ x m = s.ending k

section

variable {P : Program} {s : Failing P} {k : Nat}

theorem AgreeAt.passesAt {α : Type} {x y : Action α} (h : AgreeAt k x y) : PassesAt s k x y :=
  fun m hm => .inl (h m hm)

theorem PassesAt.bind {α β : Type} {x y : Action α} {f g : α → Action β} (hx : PassesAt s k x y)
    (hf : ∀ a, PassesAt s k (f a) (g a)) : PassesAt s k (x >>= f) (y >>= g) := by
  intro m hm
  rcases hx m hm with ⟨heq, hk⟩ | hend
  · rcases hr : x m with ⟨e | a, m'⟩
    · rw [Action.bind_of_error f hr, Action.bind_of_error g (heq.symm.trans hr)]
      exact .inl ⟨rfl, by rwa [hr] at hk⟩
    · rw [Action.bind_of_ok f hr, Action.bind_of_ok g (heq.symm.trans hr)]
      exact hf a m' (by rwa [hr] at hk)
  · -- What follows the error is not run, so it does not matter what it is.
    exact .inr (Action.bind_of_error f hend)

/-- Passing an error on is kept by all operations. -/
theorem fullCongruence_passesAt (s : Failing P) (k : Nat) : FullCongruence (PassesAt s k) where
  atom h := ((fullCongruence_agreeAt k).atom h).passesAt
  bind := PassesAt.bind
  raise e := ((fullCongruence_agreeAt k).raise e).passesAt
  outOfFuel := (fullCongruence_agreeAt k).outOfFuel.passesAt
  cached := (fullCongruence_agreeAt k).cached.passesAt

/-- A call passes on the error of the function that it starts. -/
theorem PassesAt.invoke {E E' : Engine} {mode : Mode}
    (h : ∀ f args, PassesAt s (k + 1) (E.apply mode f args) (E'.apply mode f args))
    (callee : Value) (args : List Value) :
    PassesAt s k (E.invoke mode callee args) (E'.invoke mode callee args) := by
  intro m hm
  rcases Engine.invoke_cases callee args m with ho | hn | ⟨-, f, actuals, log, hf⟩
  · rw [ho, ho]
    exact .inl ⟨rfl, hm⟩
  · rw [hn, hn]
    exact .inl ⟨rfl, hm⟩
  · rw [hf, hf]
    rcases h f actuals (m.entered log) (congrArg (· + 1) hm) with ⟨heq, hk⟩ | hend
    · rw [heq] at hk ⊢
      exact .inl ⟨rfl, by rw [leave, Machine.depth_atDepth, hk, Nat.add_sub_cancel]⟩
    · rw [hend]
      exact .inr rfl

/-- A protected call passes on an error that is no runtime error. -/
theorem PassesAt.protectedCall {E E' : Engine} {callee : Value} {args : List Value}
    (he : s.error.isRecoverable = false)
    (h : PassesAt s k (E.invoke .guarded callee args) (E'.invoke .guarded callee args)) :
    PassesAt s k (E.protectedCall callee args) (E'.protectedCall callee args) := by
  intro m hm
  rcases h.bind (fun _ => (fullCongruence_passesAt s k).pure _) m hm with hagree | hend
  · exact .inl (Action.catchRuntime_agree keepsDepth_caught hagree)
  · exact .inr (Action.catchRuntime_of_fatal hend he)

/-- The nearest protected call gives back what a runtime error carries. -/
theorem PassesAt.protectedCall_of_runtime {E E' : Engine} {callee : Value} {args : List Value}
    {payload : Value} (he : s.error = .runtime payload)
    (h : PassesAt s k (E.invoke .guarded callee args) (E'.invoke .guarded callee args))
    {m : Machine} (hm : m.depth = k) :
    E.protectedCall callee args m = E'.protectedCall callee args m ∨
      E.protectedCall callee args m = (.ok [.boolean false, payload], s.caught payload k) := by
  rcases h.bind (fun _ => (fullCongruence_passesAt s k).pure _) m hm with hagree | hend
  · exact .inl (Action.catchRuntime_agree keepsDepth_caught hagree).1
  · rw [Failing.ending, he] at hend
    exact .inr (Action.catchRuntime_of_runtime hend)

end

/-! ### Runs with a detour -/

namespace Program

variable {P : Program} {s : Failing P} {alt : Action Ret} {shielded : Bool} {fuel : Nat}

/-- The detour is taken where the failing activation starts. -/
theorem detouredApply_of_startsAt {f : Closure} {args : List Value} {m : Machine}
    (h : s.StartsAt (fuel + 1) f args m) :
    P.detouredApply s alt shielded (fuel + 1) f args m = alt m := if_pos h

/-- Any other activation runs its function, with detours below it. -/
theorem detouredApply_of_not_startsAt {f : Closure} {args : List Value} {m : Machine}
    (h : ¬ s.StartsAt (fuel + 1) f args m) :
    P.detouredApply s alt shielded (fuel + 1) f args m =
      P.runCode (P.detoured s alt shielded fuel) f args m := if_neg h

/-- What is not shielded can have the detour. -/
theorem apply_detoured {mode : Mode} (h : shielded = true → mode ≠ .guarded) :
    (P.detoured s alt shielded fuel).apply mode = P.detouredApply s alt shielded fuel :=
  if_neg fun hm => h hm.1 hm.2

/-- Runs of operations pass the error on, if runs of functions do. -/
theorem related_detoured (hs : s.error.isRecoverable = true → shielded = true)
    (h : ∀ k f args,
      PassesAt s k (P.apply fuel f args) (P.detouredApply s alt shielded fuel f args)) (k : Nat) :
    Related (PassesAt s k) (P.engine fuel) (P.detoured s alt shielded fuel) where
  invoke callee args := by
    refine PassesAt.invoke (fun f args => ?_) callee args
    rw [apply_detoured (fun _ => Mode.noConfusion)]
    exact h (k + 1) f args
  protectedCall callee args := by
    -- Either nothing under this call has a detour, or the call does not catch the error.
    cases hshield : shielded with
    | true =>
        refine (AgreeAt.protectedCall
          (.invoke (fun f args m hm _ => ⟨rfl, ?_⟩) callee args)).passesAt
        exact (P.keepsDepth_apply fuel f args m).trans hm
    | false =>
        have he : s.error.isRecoverable = false :=
          Bool.eq_false_iff.2 fun he => Bool.noConfusion (hshield.symm.trans (hs he))
        rw [← hshield]
        refine PassesAt.protectedCall he (PassesAt.invoke (fun f args => ?_) callee args)
        rw [apply_detoured fun ht => absurd (hshield.symm.trans ht) Bool.noConfusion]
        exact h (k + 1) f args
  probes := rfl

theorem perform_passesAt_detoured (hs : s.error.isRecoverable = true → shielded = true)
    (h : ∀ k f args,
      PassesAt s k (P.apply fuel f args) (P.detouredApply s alt shielded fuel f args)) (k : Nat)
    (vs : List Value) (op : Op) :
    PassesAt s k (op.perform (P.engine fuel) vs)
      (op.perform (P.detoured s alt shielded fuel) vs) := by
  refine (fullCongruence_passesAt s k).performAny (related_detoured hs h k) (fun f args => ?_) vs op
  rw [apply_detoured (fun _ => Mode.noConfusion)]
  exact h k f args

/-- Runs of functions pass the error on: by induction on the fuel. -/
theorem apply_passesAt_detoured (hs : s.error.isRecoverable = true → shielded = true)
    (alt : Action Ret) (fuel k : Nat) (f : Closure) (args : List Value) :
    PassesAt s k (P.apply fuel f args) (P.detouredApply s alt shielded fuel f args) := by
  induction fuel generalizing k f args with
  | zero => exact (fullCongruence_passesAt s k).outOfFuel
  | succ fuel ih =>
      intro m hm
      by_cases hstart : s.StartsAt (fuel + 1) f args m
      · -- The failing function itself: its error is the one that is passed on.
        obtain ⟨hfuel, rfl, rfl, rfl⟩ := hstart
        rw [hfuel, s.fails_eq_ending, hm]
        exact .inr rfl
      · have hrun := (fullCongruence_passesAt s k).runCode (related_detoured hs ih k)
          (perform_passesAt_detoured hs ih k) P f args m hm
        rw [detouredApply_of_not_startsAt hstart]
        exact hrun

/-- Runs of steps pass the error on. -/
theorem step_passesAt_detoured (hs : s.error.isRecoverable = true → shielded = true)
    (alt : Action Ret) (fuel k : Nat) (args : List Value) (step : Step) :
    PassesAt s k (step.run (Op.perform (P.engine fuel)) args)
      (step.run (Op.perform (P.detoured s alt shielded fuel)) args) :=
  (fullCongruence_passesAt s k).step
    (perform_passesAt_detoured hs (apply_passesAt_detoured hs alt fuel) k) args step

end Program

/-! ### Within a body -/

open Classical in
/-- Performs operations by `act`, but does `alt` where one operation is performed on some values and
a machine. -/
noncomputable def divert (act : List Value → Op → Action Answer) (vs : List Value) (op : Op)
    (before : Machine) (alt : Action Answer) : List Value → Op → Action Answer := fun vs' op' m =>
  if vs' = vs ∧ op' = op ∧ m = before then alt m else act vs' op' m

/-- Two actions that do the same, unless the first fails in one way. -/
def SameUnless (e : Error) (after : Machine) {α : Type} (x y : Action α) : Prop :=
  ∀ m, x m = y m ∨ x m = (.error (.error e), after)

/-- Failing in one way is kept by all that follows. -/
theorem congruence_sameUnless (e : Error) (after : Machine) : Congruence (SameUnless e after) where
  atom _ _ := .inl rfl
  bind {_ _ x y f g} hx hf m := by
    rcases hx m with heq | hend
    · rcases hr : x m with ⟨e' | a, m'⟩
      · exact .inl ((Action.bind_of_error f hr).trans (Action.bind_of_error g (heq ▸ hr)).symm)
      · rw [Action.bind_of_ok f hr, Action.bind_of_ok g (heq ▸ hr)]
        exact hf a m'
    · exact .inr (Action.bind_of_error f hend)

theorem divert_sameUnless {act : List Value → Op → Action Answer} {vs : List Value} {op : Op}
    {before after : Machine} {e : Error} (h : act vs op before = (.error (.error e), after))
    (alt : Action Answer) (vs' : List Value) (op' : Op) :
    SameUnless e after (act vs' op') (divert act vs op before alt vs' op') := by
  intro m
  by_cases hat : vs' = vs ∧ op' = op ∧ m = before
  · obtain ⟨rfl, rfl, rfl⟩ := hat
    exact .inr h
  · exact .inl (if_neg hat).symm

/-! ### The law -/

/-- The outcome of a run hinges on what a detour can change: with some detour it is another one. -/
def HingesOn {α β : Type} (x : Action α) (withDetour : Action β → Action α) (m : Machine) : Prop :=
  ∃ alt, withDetour alt m ≠ x m

/-- What hinges on the detour ends as the activation that fails. -/
theorem PassesAt.eq_ending {P : Program} {s : Failing P} {α : Type} {x : Action α}
    {withDetour : Action Ret → Action α} {m : Machine}
    (h : ∀ alt k, PassesAt s k x (withDetour alt)) (hinges : HingesOn x withDetour m) :
    x m = s.ending m.depth := by
  obtain ⟨alt, hne⟩ := hinges
  rcases h alt m.depth m rfl with ⟨heq, -⟩ | hend
  · exact absurd heq.symm hne
  · exact hend

/-- What hinges on what an operation does ends with the error of the operation. -/
theorem SameUnless.eq_error {e : Error} {after : Machine} {α : Type} {x : Action α}
    {withDetour : Action Answer → Action α} {m : Machine}
    (h : ∀ alt, SameUnless e after x (withDetour alt)) (hinges : HingesOn x withDetour m) :
    x m = (.error (.error e), after) := by
  obtain ⟨alt, hne⟩ := hinges
  rcases h alt m with heq | hend
  · exact absurd heq.symm hne
  · exact hend

/-- The call of a protected call passes on the error of a function under it. -/
theorem Program.invoke_passesAt_detouredBelow {P : Program} (s : Failing P) (alt : Action Ret)
    (fuel k : Nat) (callee : Value) (args : List Value) :
    PassesAt s k ((P.engine fuel).invoke .guarded callee args)
      ((P.detouredBelow s alt fuel).invoke .guarded callee args) :=
  .invoke (fun f args => apply_passesAt_detoured (fun _ => rfl) alt fuel (k + 1) f args) callee args

/-- Every function, operation and step around a failing function ends with its error, and with the
machine that it left behind. -/
structure Failing.PassesThrough {P : Program} (s : Failing P) (shielded : Bool) (fuel : Nat)
    (m : Machine) : Prop where
  function : ∀ f args, HingesOn (P.apply fuel f args)
    (fun alt => P.detouredApply s alt shielded fuel f args) m →
    P.apply fuel f args m = s.ending m.depth
  operation : ∀ vs (op : Op), HingesOn (op.perform (P.engine fuel) vs)
    (fun alt => op.perform (P.detoured s alt shielded fuel) vs) m →
    op.perform (P.engine fuel) vs m = s.ending m.depth
  step : ∀ args (step : Step), HingesOn (step.run (Op.perform (P.engine fuel)) args)
    (fun alt => step.run (Op.perform (P.detoured s alt shielded fuel)) args) m →
    step.run (Op.perform (P.engine fuel)) args m = s.ending m.depth

theorem Failing.passesThrough {P : Program} (s : Failing P) {shielded : Bool}
    (hs : s.error.isRecoverable = true → shielded = true) (fuel : Nat) (m : Machine) :
    s.PassesThrough shielded fuel m where
  function f args := PassesAt.eq_ending fun alt k =>
    Program.apply_passesAt_detoured hs alt fuel k f args
  operation vs op := PassesAt.eq_ending fun alt k =>
    Program.perform_passesAt_detoured hs (Program.apply_passesAt_detoured hs alt fuel) k vs op
  step args step := PassesAt.eq_ending fun alt k =>
    Program.step_passesAt_detoured hs alt fuel k args step

/-- A step at the top that ends with the error of a failing function. -/
theorem Failing.perform_eq {P : Program} (s : Failing P) {fuel : Nat} {m : Machine} {t : TopStep}
    (h : t.step.run (Op.perform (P.engine fuel)) [] (m.prepared t.holdsSink) = s.ending m.depth) :
    P.perform fuel m t =
      (⟨.error (.error s.error), s.after.trace.reverse, s.after.log.reverse⟩,
        (s.after.atDepth m.depth).prepared false) := by
  simp only [Program.perform, h, Failing.ending]
  rfl

/-- **Errors pass unchanged.**  Let a function of a run fail.  Everything around it, up to the
nearest protected call, ends with the same error and with the machine that the function left behind.
If it is a runtime error, the nearest protected call gives false and the very value that the error
carries.  If it is not, the error passes through protected calls too, and is the outcome of the step
at the top.  Where the failure begins it is the same: when an operation of a body fails, so does the
step, and so does the body. -/
theorem errors_pass_unchanged (P : Program) (s : Failing P) :
    (∀ fuel m, s.PassesThrough true fuel m) ∧
    (∀ payload, s.error = .runtime payload → ∀ fuel callee args m,
      HingesOn ((P.engine fuel).protectedCall callee args)
        (fun alt => (P.detouredBelow s alt fuel).protectedCall callee args) m →
      (P.engine fuel).protectedCall callee args m =
        (.ok [.boolean false, payload], s.caught payload m.depth) ∧
      Library.pcall (P.engine fuel) (callee :: args) m =
        (.ok (.many [.boolean false, payload]), s.caught payload m.depth)) ∧
    (s.error.isRecoverable = false → ∀ fuel m, s.PassesThrough false fuel m ∧
      ∀ t : TopStep, HingesOn (t.step.run (Op.perform (P.engine fuel)) [])
        (fun alt => t.step.run (Op.perform (P.detoured s alt false fuel)) [])
        (m.prepared t.holdsSink) →
      P.perform fuel m t =
        (⟨.error (.error s.error), s.after.trace.reverse, s.after.log.reverse⟩,
          (s.after.atDepth m.depth).prepared false)) ∧
    ∀ act vs (op : Op) before e after, act vs op before = (.error (.error e), after) → ∀ args m,
      (∀ step : Step, HingesOn (step.run act args)
        (fun alt => step.run (divert act vs op before alt) args) m →
        step.run act args m = (.error (.error e), after)) ∧
      ∀ (p : Prototype) name, HingesOn (p.run act name args)
        (fun alt => p.run (divert act vs op before alt) name args) m →
        p.run act name args m = (.error (.error e), after) := by
  refine ⟨s.passesThrough fun _ => rfl, ?_, ?_, ?_⟩
  · rintro payload he fuel callee args m ⟨alt, hne⟩
    have hpass := Program.invoke_passesAt_detouredBelow s alt fuel m.depth callee args
    rcases hpass.protectedCall_of_runtime he rfl with heq | hcaught
    · exact absurd heq.symm hne
    · exact ⟨hcaught, Action.bind_of_ok _ hcaught⟩
  · intro he fuel m
    have hs : s.error.isRecoverable = true → false = true := he.symm.trans
    exact ⟨s.passesThrough hs fuel m,
      fun t hinges => s.perform_eq ((s.passesThrough hs fuel _).step [] t.step hinges)⟩
  · intro act vs op before e after hfails args m
    have C := congruence_sameUnless e after
    exact ⟨fun step => SameUnless.eq_error fun alt =>
        C.step (divert_sameUnless hfails alt) args step,
      fun p name => SameUnless.eq_error fun alt =>
        C.prototypeRun (divert_sameUnless hfails alt) p name args⟩

/-- A program with one function, which raises an error. -/
def raising : Program :=
  ⟨#[{ body := [.mk (.op .raise) [.one (.string "boom")] .nowhere] }], []⟩

/-- The function of the program. -/
def raisingFunction : Closure := ⟨⟨0⟩, "raising", .script 0⟩

/-- The function fails, in the first call of a host. -/
def raisingFails : Failing raising where
  fuel := 1
  function := raisingFunction
  args := []
  before := Machine.entered {} []
  error := .runtime (.string "boom")
  after := { Machine.entered {} [] with trace := [⟨"raising", [], 1⟩] }
  fails := rfl

/-- The protected call would give something else if the function did. -/
theorem hingesOn_raising :
    HingesOn ((raising.engine 1).protectedCall (.function raisingFunction) [])
    (fun alt => (raising.detouredBelow raisingFails alt 1).protectedCall
      (.function raisingFunction) []) {} := by
  refine ⟨pure .none, fun heq => ?_⟩
  have hcall : (raising.detouredBelow raisingFails (pure .none) 1).invoke .guarded
      (.function raisingFunction) [] {} = (.ok .none, Machine.configured {}) := by
    rw [Engine.invoke_of_lt (by decide)]
    exact congrArg leave (Program.detouredApply_of_startsAt ⟨rfl, rfl, rfl, rfl⟩)
  have hother : (raising.detouredBelow raisingFails (pure .none) 1).protectedCall
      (.function raisingFunction) [] {} = (.ok [.boolean true], Machine.configured {}) := by
    unfold Engine.protectedCall Action.catchRuntime
    rw [Action.bind_of_ok _ hcall]
    rfl
  have hfirst : (.ok [.boolean true] : Except Halt (List Value)) =
      .ok [.boolean false, .string "boom"] := congrArg Prod.fst (hother.symm.trans heq)
  injection hfirst with hlist
  exact absurd (congrArg List.length hlist) (by decide)

/-- The error of the function is caught by the protected call, which hinges on it. -/
theorem raising_caught :
    HingesOn ((raising.engine 1).protectedCall (.function raisingFunction) [])
      (fun alt => (raising.detouredBelow raisingFails alt 1).protectedCall
        (.function raisingFunction) []) {} ∧
    (raising.engine 1).protectedCall (.function raisingFunction) [] {} =
      (.ok [.boolean false, .string "boom"], raisingFails.caught (.string "boom") 0) :=
  ⟨hingesOn_raising, ((errors_pass_unchanged raising raisingFails).2.1 (.string "boom") rfl 1
    (.function raisingFunction) [] {} hingesOn_raising).1⟩

end LuaKernel
