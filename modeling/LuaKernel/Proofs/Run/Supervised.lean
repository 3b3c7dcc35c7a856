import LuaKernel.Proofs.Run.Acting
import LuaKernel.Proofs.Run.Congruence
import Mathlib.Data.List.Forall2

/-!
# Supervised runs

A run can be looked after from outside.  A `Supervision` says how operations are performed, in the
steps of the program and in the bodies of its functions, and what becomes of the run of each
function, be it a function of a library or of the program.  So it stands at every point where the
run does something that a program asks for.  The supervision that does nothing leaves the run as it
is (`Program.stepUnder_none`), and what it does with operations that do not stand in the program
does not matter (`Program.stepUnder_skipping`).  A property holds at every point of a run if to
watch over it changes nothing (`Program.Always`).

Two supervisions of one program are related, by any relation that the kernel keeps, as soon as they
are related at each operation and around each function (`TameCongruence.applyUnder`).  From the
steps of a program, what is so goes on to its sessions (`runSteps_related`).
-/

namespace LuaKernel

/-- A way to look after a run. -/
structure Supervision where
  /-- How operations are performed. -/
  perform : Performer
  /-- What becomes of the run of a function on arguments. -/
  around : Closure → List Value → Action Ret → Action Ret

namespace Supervision

/-- The supervision that does nothing. -/
def none : Supervision := ⟨Op.perform, fun _ _ x => x⟩

/-- The supervision that skips some operations. -/
def skipping (S : Supervision) (skip : Op → Bool) : Supervision where
  perform E vs op := if skip op then pure .none else S.perform E vs op
  around := S.around

end Supervision

open Classical in
/-- Runs an action between two points at which a property is to hold; if it does not, this is an
alarm. -/
noncomputable def Action.watched {α : Type} (good : Machine → Prop) (alarm x : Action α) :
    Action α :=
  fun m => if good m ∧ good (x m).2 then x m else alarm m

/-- A supervision that also watches over a property, before and after each operation and each
function. -/
noncomputable def Supervision.watching (S : Supervision) (good : Machine → Prop)
    (alarm : (α : Type) → Action α) : Supervision where
  perform E vs op := .watched good (alarm _) (S.perform E vs op)
  around f args x := .watched good (alarm _) (S.around f args x)

namespace Program

/-- Runs the code of a function with fuel, under supervision. -/
def applyUnder (P : Program) (S : Supervision) : (fuel : Nat) → Closure → List Value → Action Ret
  | 0, _, _ => Action.outOfFuel
  | fuel + 1, f, args =>
    S.around f args (P.runCodeWith S.perform ⟨fun _ => P.applyUnder S fuel, fuel⟩ f args)

/-- The engine of a program under supervision. -/
def engineUnder (P : Program) (S : Supervision) (fuel : Nat) : Engine :=
  ⟨fun _ => P.applyUnder S fuel, fuel⟩

/-- Runs a step of a function with arguments, under supervision. -/
def stepUnder (P : Program) (S : Supervision) (fuel : Nat) (args : List Value) (s : Step) :
    Action Completion :=
  s.run (S.perform (P.engineUnder S fuel)) args

/-- Runs a program on a machine, under supervision. -/
def runUnder (P : Program) (S : Supervision) (fuel : Nat) (m : Machine) :
    List StepRecord × Machine :=
  runSteps (S.perform (P.engineUnder S fuel)) m P.steps

/-- A property holds at every point of a supervised step: nothing changes when it is watched over,
whatever happens at an alarm. -/
def AlwaysIn (P : Program) (S : Supervision) (good : Machine → Prop) (fuel : Nat)
    (args : List Value) (s : Step) (m : Machine) : Prop :=
  ∀ alarm, P.stepUnder (S.watching good alarm) fuel args s m = P.stepUnder S fuel args s m

/-- A property holds at every point of a supervised run. -/
def Always (P : Program) (S : Supervision) (good : Machine → Prop) (fuel : Nat) (m : Machine) :
    Prop :=
  ∀ alarm, P.runUnder (S.watching good alarm) fuel m = P.runUnder S fuel m

/-! ### What a supervision can change -/

variable {P : Program} {S S' : Supervision}

theorem applyUnder_congr (h : ∀ op ∈ P.functionOps, ∀ E vs, S.perform E vs op = S'.perform E vs op)
    (haround : S.around = S'.around) (fuel : Nat) :
    P.applyUnder S fuel = P.applyUnder S' fuel := by
  induction fuel with
  | zero => rfl
  | succ fuel ih =>
      funext f args
      simp only [applyUnder, runCodeWith, haround, ih]
      cases f.code with
      | builtin b => rfl
      | script i =>
          have hbody := runBlock_congr args (P.prototype i).body fun op hop vs =>
            h op (mem_functionOps_of_prototype hop) ⟨fun _ => P.applyUnder S' fuel, fuel⟩ vs
          simp only [Prototype.run, hbody]

theorem skipping_perform {skip : Op → Bool} (S : Supervision) {op : Op} (hop : skip op = false)
    (E : Engine) (vs : List Value) : (S.skipping skip).perform E vs op = S.perform E vs op := by
  simp only [Supervision.skipping, hop, Bool.false_eq_true, if_false]

theorem applyUnder_skipping {skip : Op → Bool} (h : ∀ op ∈ P.functionOps, skip op = false)
    (S : Supervision) (fuel : Nat) : P.applyUnder (S.skipping skip) fuel = P.applyUnder S fuel :=
  applyUnder_congr (fun op hop => skipping_perform S (h op hop)) rfl fuel

/-- To skip operations that stand neither in the functions of a program nor in a step changes
nothing for the step. -/
theorem stepUnder_skipping {skip : Op → Bool} (h : ∀ op ∈ P.functionOps, skip op = false)
    (S : Supervision) (fuel : Nat) (args : List Value) {s : Step}
    (hs : ∀ op ∈ s.ops, skip op = false) :
    P.stepUnder (S.skipping skip) fuel args s = P.stepUnder S fuel args s := by
  simp only [stepUnder, engineUnder, applyUnder_skipping h S]
  exact Step.run_congr args s fun op hop vs => skipping_perform S (hs op hop) _ vs

theorem mem_ops_of_step {s : TopStep} (hs : s ∈ P.steps) {op : Op} (hop : op ∈ s.step.ops) :
    op ∈ P.ops :=
  List.mem_append_right _ (List.mem_flatMap.2 ⟨s, hs, hop⟩)

theorem applyUnder_none (P : Program) (fuel : Nat) : P.applyUnder .none fuel = P.apply fuel := by
  induction fuel with
  | zero => rfl
  | succ fuel ih =>
      funext f args
      simp only [applyUnder, Supervision.none] at ih ⊢
      rw [ih]
      rfl

/-- A step under no supervision is the step. -/
theorem stepUnder_none (P : Program) (fuel : Nat) (args : List Value) (s : Step) :
    P.stepUnder .none fuel args s = s.run (Op.perform (P.engine fuel)) args := by
  simp only [stepUnder, engineUnder, applyUnder_none]
  rfl

end Program

/-! ### Two supervisions of one program -/

namespace TameCongruence

variable {R : ∀ {α : Type}, Action α → Action α → Prop} (C : TameCongruence R) (K : KeptByCalls R)
  {P : Program} {S S' : Supervision}
  (hfuel : R (Action.outOfFuel : Action Ret) .outOfFuel)
  (hop : ∀ {E E' : Engine}, Related R E E' →
    (∀ f args, R (E.apply .inlined f args) (E'.apply .inlined f args)) →
    ∀ args op, R (S.perform E args op) (S'.perform E' args op))
  (haround : ∀ f args x y,
    ((f.code = .builtin .rawset → R (Library.rawset args) (Library.rawset args)) → R x y) →
    R (S.around f args x) (S'.around f args y))

include C K hfuel hop haround

/-- Two supervised runs of a function, if the supervisions are related at operations and around
functions: by induction on the fuel. -/
theorem applyUnder (fuel : Nat) (f : Closure) (args : List Value) :
    R (P.applyUnder S fuel f args) (P.applyUnder S' fuel f args) := by
  induction fuel generalizing f args with
  | zero => exact hfuel
  | succ fuel ih =>
      have hE : Related R (P.engineUnder S fuel) (P.engineUnder S' fuel) :=
        C.related K (fun _ => ih) rfl
      refine haround f args _ _ fun hraw => ?_
      simp only [Program.runCodeWith]
      cases hcode : f.code with
      | builtin b => exact C.builtin hE b args fun hb => hraw (hb ▸ hcode)
      | script i => exact C.prototypeRun (hop hE ih) (P.prototype i) f.name args

/-- Two supervised runs of a step. -/
theorem stepUnder (fuel : Nat) (args : List Value) (s : Step) :
    R (P.stepUnder S fuel args s) (P.stepUnder S' fuel args s) := by
  have happly := C.applyUnder K hfuel hop haround (P := P) fuel
  have hE : Related R (P.engineUnder S fuel) (P.engineUnder S' fuel) :=
    C.related K (fun _ => happly) rfl
  exact C.step (hop hE happly) args s

end TameCongruence

/-! ### Runs of one program -/

namespace FullCongruence

variable {R : ∀ {α : Type}, Action α → Action α → Prop} (F : FullCongruence R) (K : KeptByCalls R)
  (P : Program) (fuel : Nat)

include F K

/-- A function of a program is related to itself, by a relation that everything keeps. -/
theorem applyAny (f : Closure) (args : List Value) :
    R (P.apply fuel f args) (P.apply fuel f args) := by
  have C := F.toCongruence
  rw [← P.applyUnder_none]
  exact @TameCongruence.applyUnder _ C.toTameCongruence K P _ .none F.outOfFuel F.performAny
    (fun _ _ _ _ h => h fun _ => C.rawset _) fuel f args

/-- So is the engine of a program. -/
theorem relatedAny : Related R (P.engine fuel) (P.engine fuel) :=
  F.toTameCongruence.related K (fun _ => F.applyAny K P fuel) rfl

/-- So is a step of a program. -/
theorem stepAny (args : List Value) (s : Step) :
    R (s.run (Op.perform (P.engine fuel)) args) (s.run (Op.perform (P.engine fuel)) args) :=
  F.toTameCongruence.step (F.performAny (F.relatedAny K P fuel) (F.applyAny K P fuel)) args s

end FullCongruence

/-! ### Two sessions -/

/-- Two sessions, on machines that are related, if so are the machines that their steps leave
behind: by induction on the steps.  The records of the steps are related as far as their machines
make them. -/
theorem runSteps_related {ρ : Machine → Machine → Prop} {σ : StepRecord → StepRecord → Prop}
    (hprepared : ∀ {m m'}, ρ m m' → ∀ holdsSink, ρ (m.prepared holdsSink) (m'.prepared holdsSink))
    (hrecord : ∀ {m m'}, ρ m m' → ∀ outcome,
      σ (StepRecord.ofEnd (outcome, m)).1 (StepRecord.ofEnd (outcome, m')).1)
    {act act' : List Value → Op → Action Answer} {steps : List TopStep}
    (hact : ∀ s ∈ steps, ∀ m m', ρ m m' →
      (s.step.run act [] m).1 = (s.step.run act' [] m').1 ∧
        ρ (s.step.run act [] m).2 (s.step.run act' [] m').2)
    {m m' : Machine} (h : ρ m m') :
    List.Forall₂ σ (runSteps act m steps).1 (runSteps act' m' steps).1 ∧
      ρ (runSteps act m steps).2 (runSteps act' m' steps).2 := by
  induction steps generalizing m m' with
  | nil => exact ⟨.nil, h⟩
  | cons s rest ih =>
      obtain ⟨hres, hrelated⟩ := hact s List.mem_cons_self _ _ (hprepared h s.holdsSink)
      rcases hr : s.step.run act [] (m.prepared s.holdsSink) with ⟨r, n⟩
      rcases hr' : s.step.run act' [] (m'.prepared s.holdsSink) with ⟨r', n'⟩
      rw [hr, hr'] at hres hrelated
      obtain rfl : r = r' := hres
      obtain ⟨hrecords, hend⟩ := ih (fun s hs => hact s (List.mem_cons_of_mem _ hs))
        (hprepared hrelated false)
      simp only [runSteps, hr, hr']
      exact ⟨.cons (hrecord hrelated r) hrecords, hend⟩

end LuaKernel
