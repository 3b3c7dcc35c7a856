import LuaKernel.Script.Session

/-!
# Runs with other operations

What a program is built from are its operations, and a run can be thought to perform them in another
way: `Program.runWith` is the run of a program whose operations are performed by a given
`Performer`, in its own steps and in all functions that are called.  With the operations of the
kernel it is the run itself (`Program.runWith_perform`).

Only the operations that stand in the program are ever performed (`Program.runWith_congr`): the
values of a run carry no code of their own, and name prototypes of the program.  So what a run can
do is a matter of `Program.ops`.
-/

namespace LuaKernel

/-- A way to perform operations on arguments, given what runs functions. -/
abbrev Performer := Engine → List Value → Op → Action Answer

namespace Program

/-- Runs the code of a function, whose operations are performed by `act`. -/
def runCodeWith (P : Program) (act : Performer) (E : Engine) (f : Closure) (args : List Value) :
    Action Ret :=
  match f.code with
  | .builtin b => b.run E args
  | .script i => (P.prototype i).run (act E) f.name args

/-- Runs the code of a function with fuel, with operations that are performed by `act`. -/
def applyWith (P : Program) (act : Performer) : (fuel : Nat) → Closure → List Value → Action Ret
  | 0, _, _ => Action.outOfFuel
  | fuel + 1, f, args => P.runCodeWith act ⟨fun _ => P.applyWith act fuel, fuel⟩ f args

/-- The engine of a program whose operations are performed by `act`. -/
def engineWith (P : Program) (act : Performer) (fuel : Nat) : Engine :=
  ⟨fun _ => P.applyWith act fuel, fuel⟩

end Program

/-- The record of a step at the top of a program that ends in this way, and the machine for the next
step. -/
def StepRecord.ofEnd (r : Except Halt Completion × Machine) : StepRecord × Machine :=
  (⟨r.1, r.2.trace.reverse, r.2.log.reverse⟩, r.2.prepared false)

/-- Runs steps at the top of a program; `act` performs the operations. -/
def runSteps (act : List Value → Op → Action Answer) (m : Machine) :
    List TopStep → List StepRecord × Machine
  | [] => ([], m)
  | s :: rest =>
    let first := StepRecord.ofEnd (s.step.run act [] (m.prepared s.holdsSink))
    let others := runSteps act first.2 rest
    (first.1 :: others.1, others.2)

namespace Program

theorem applyWith_perform (P : Program) (fuel : Nat) :
    P.applyWith Op.perform fuel = P.apply fuel := by
  induction fuel with
  | zero => rfl
  | succ fuel ih =>
      funext f args
      change P.runCodeWith Op.perform ⟨fun _ => P.applyWith Op.perform fuel, fuel⟩ f args =
        P.runCode ⟨fun _ => P.apply fuel, fuel⟩ f args
      rw [ih]
      rfl

theorem performAll_eq_runSteps (P : Program) (fuel : Nat) (m : Machine) (steps : List TopStep) :
    P.performAll fuel m steps = runSteps (Op.perform (P.engine fuel)) m steps := by
  induction steps generalizing m with
  | nil => rfl
  | cons s rest ih =>
      simp only [performAll, runSteps, ih]
      rfl

end Program

/-! ### The operations of a program -/

mutual

/-- The operations in a step. -/
def Step.ops : Step → List Op
  | .mk verb _ _ => verb.ops

/-- The operations in what a step does. -/
def Verb.ops : Verb → List Op
  | .op op => [op]
  | .returnAll | .returnOne => []
  | .branch yes no => blockOps yes ++ blockOps no
  | .loop _ body => blockOps body

/-- The operations in a block. -/
def blockOps : List Step → List Op
  | [] => []
  | s :: rest => s.ops ++ blockOps rest

end

/-- The operations in the functions of a program. -/
def Program.functionOps (P : Program) : List Op :=
  P.prototypes.toList.flatMap fun p => blockOps p.body

/-- The operations in a program, those of its functions first. -/
def Program.ops (P : Program) : List Op :=
  P.prototypes.toList.flatMap (fun p => blockOps p.body) ++ P.steps.flatMap (fun s => s.step.ops)

section

variable {act act' : List Value → Op → Action Answer}

mutual

/-- A step performs the operations that stand in it, and no others. -/
theorem Step.run_congr (args : List Value) :
    ∀ s : Step, (∀ op ∈ s.ops, ∀ vs, act vs op = act' vs op) → s.run act args = s.run act' args
  | .mk verb actuals target, h => by
      have hverb : ∀ vs, verb.run act args vs = verb.run act' args vs := fun vs =>
        Verb.run_congr args vs verb h
      simp only [Step.run, hverb]

theorem Verb.run_congr (args vs : List Value) :
    ∀ v : Verb, (∀ op ∈ v.ops, ∀ vs, act vs op = act' vs op) →
      v.run act args vs = v.run act' args vs
  | .op op, h => by simp only [Verb.run, h op (List.mem_singleton_self op)]
  | .returnAll, _ | .returnOne, _ => rfl
  | .branch yes no, h => by
      have hyes := runBlock_congr args yes fun op hop => h op (List.mem_append_left _ hop)
      have hno := runBlock_congr args no fun op hop => h op (List.mem_append_right _ hop)
      simp only [Verb.run, hyes, hno]
  | .loop count body, h => by
      have hbody := runBlock_congr args body h
      simp only [Verb.run, hbody]

theorem runBlock_congr (args : List Value) :
    ∀ steps : List Step, (∀ op ∈ blockOps steps, ∀ vs, act vs op = act' vs op) →
      runBlock act args steps = runBlock act' args steps
  | [], _ => rfl
  | s :: rest, h => by
      have hs := Step.run_congr args s fun op hop => h op (List.mem_append_left _ hop)
      have hrest := runBlock_congr args rest fun op hop => h op (List.mem_append_right _ hop)
      simp only [runBlock, hs, hrest]

end

end

namespace Program

variable {P : Program} {act act' : Performer}

theorem mem_ops_of_mem_functionOps {op : Op} (h : op ∈ P.functionOps) : op ∈ P.ops :=
  List.mem_append_left _ h

/-- The operations of a prototype are operations of the functions. -/
theorem mem_functionOps_of_prototype {i : Nat} {op : Op}
    (h : op ∈ blockOps (P.prototype i).body) : op ∈ P.functionOps := by
  unfold prototype at h
  rw [Array.getD_eq_getD_getElem?] at h
  cases hp : P.prototypes[i]? with
  | none =>
      -- There is no such prototype, and one without steps stands for it.
      rw [hp] at h
      cases h
  | some p =>
      rw [hp] at h
      have hmem : p ∈ P.prototypes.toList := Array.mem_toList_iff.2 (Array.mem_of_getElem? hp)
      exact List.mem_flatMap.2 ⟨p, hmem, h⟩

/-- Functions perform the operations that stand in functions, and no others. -/
theorem applyWith_congr (h : ∀ op ∈ P.functionOps, ∀ E vs, act E vs op = act' E vs op)
    (fuel : Nat) : P.applyWith act fuel = P.applyWith act' fuel := by
  induction fuel with
  | zero => rfl
  | succ fuel ih =>
      funext f args
      unfold applyWith runCodeWith
      rw [ih]
      cases f.code with
      | builtin b => rfl
      | script i =>
          have hbody := runBlock_congr args (P.prototype i).body fun op hop vs =>
            h op (mem_functionOps_of_prototype hop) ⟨fun _ => P.applyWith act' fuel, fuel⟩ vs
          simp only [Prototype.run, hbody]

end Program

end LuaKernel
