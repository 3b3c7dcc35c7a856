import LuaKernel.Script.Perform

/-!
# Running programs

Expressions get their values and steps are run by recursion on the program.  Running the code of a
function is what an engine does: with fuel `n + 1`, the engine of a program runs a body with the
engine of fuel `n`, and without fuel it runs nothing (`Program.apply`).  So fuel bounds how deep the
running functions nest, and how many positions a length may probe, and nothing else.
-/

namespace LuaKernel

/-! ### Expressions -/

/-- The register of the global environment. -/
def globalRegister : String := "G"

/-- Reads one string key after the other, without metatables; nil from the first value that is no
table. -/
def Action.rawPath (v : Value) : List String → Action Value
  | [] => return v
  | k :: ks =>
    match v with
    | .table t => do rawPath ((← Action.table t).rawGet (.string k)) ks
    | _ => return .nil

mutual

/-- The value of an expression in a function with arguments. -/
def Expr.eval (args : List Value) : Expr → Action Value
  | .nil => return .nil
  | .boolean b => return .boolean b
  | .number x => return .number x
  | .string s => return .string s
  | .register name => Action.register name
  | .argument i => return LuaKernel.argument args i
  | .argumentCount => return .ofNat args.length
  | .global path => do Action.rawPath (← Action.register globalRegister) path
  | .stringMetatable => return .table Heap.stringMetatable
  | .list items => do
    let vs ← evalAll args items
    let t ← Action.newTable
    Action.setList (.table t) 1 vs
    return .table t
  | .table entries metatable => do
    let t ← Action.newTable
    fill args t entries
    Action.attachMetatable t (← metatable.eval args).asTable?
    return .table t
  | .function name prototype => do
    return .function (← Action.newFunction name (.script prototype))

/-- The values of expressions, from left to right. -/
def evalAll (args : List Value) : List Expr → Action (List Value)
  | [] => return []
  | e :: es => do
    let v ← e.eval args
    let vs ← evalAll args es
    return v :: vs

/-- Puts entries into a table, one after the other. -/
def fill (args : List Value) (t : TableId) : List Entry → Action Unit
  | [] => return ()
  | .mk key value :: rest => do
    let k ← key.eval args
    let v ← value.eval args
    Action.rawSet t k v
    fill args t rest

end

/-- The values of the arguments of a step, from left to right. -/
def evalArgs (args : List Value) : List Arg → Action (List Value)
  | [] => return []
  | .one e :: rest => do
    let v ← e.eval args
    let vs ← evalArgs args rest
    return v :: vs
  | .rest start :: rest => do
    let vs ← evalArgs args rest
    return args.drop start ++ vs

/-! ### Steps -/

/-- Stores values in registers one by one, and nil where there are too few. -/
def storeEach : List String → List Value → Action Unit
  | [], _ => return ()
  | r :: rs, vs => do
    Action.setRegister r (vs.headD .nil)
    storeEach rs vs.tail

/-- Stores values where a step wants them. -/
def Target.store (vs : List Value) : Target → Action Unit
  | .nowhere => return ()
  | .first r => Action.setRegister r (vs.headD .nil)
  | .each rs => storeEach rs vs

/-- Runs a block a number of times, unless it returns. -/
def repeatBlock (block : Action (Option Ret)) : Nat → Action (Option Ret)
  | 0 => return none
  | n + 1 => do
    match ← block with
    | some r => return some r
    | none => repeatBlock block n

/-- How a step ends that ran a block. -/
def Completion.ofBlock : Option Ret → Completion
  | some r => .returned r
  | none => .done .none

mutual

/-- Runs a step in a function with arguments; `act` performs the operations. -/
def Step.run (act : List Value → Op → Action Answer) (args : List Value) : Step → Action Completion
  | .mk verb actuals target => do
    let vs ← evalArgs args actuals
    match ← verb.run act args vs with
    | .done a => do
      target.store a.toList
      return .done a
    | .returned r => return .returned r

/-- Does what a step does, with the values of its arguments. -/
def Verb.run (act : List Value → Op → Action Answer) (args vs : List Value) :
    Verb → Action Completion
  | .op op => do return .done (← act vs op)
  | .returnAll => return .returned (.many vs)
  | .returnOne => return .returned (.single (LuaKernel.argument vs 0))
  | .branch yes no => do
    if (LuaKernel.argument vs 0).isTruthy then return .ofBlock (← runBlock act args yes)
    else return .ofBlock (← runBlock act args no)
  | .loop count body => do return .ofBlock (← repeatBlock (runBlock act args body) count)

/-- Runs steps one after the other, until one returns. -/
def runBlock (act : List Value → Op → Action Answer) (args : List Value) :
    List Step → Action (Option Ret)
  | [] => return none
  | step :: rest => do
    match ← step.run act args with
    | .done _ => runBlock act args rest
    | .returned r => return some r

end

/-! ### Functions -/

/-- Runs the body of a function on arguments. -/
def Prototype.run (act : List Value → Op → Action Answer) (p : Prototype) (name : String)
    (args : List Value) : Action Ret := do
  if !p.quiet then Action.recordStart name args
  return (← runBlock act args p.body).getD .none

namespace Program

/-- The prototype at a position; one without steps where there is none. -/
def prototype (P : Program) (i : Nat) : Prototype := P.prototypes.getD i default

/-- Runs the code of a function. -/
def runCode (P : Program) (E : Engine) (f : Closure) (args : List Value) : Action Ret :=
  match f.code with
  | .builtin b => b.run E args
  | .script i => (P.prototype i).run (Op.perform E) f.name args

/-- Runs the code of a function with fuel. -/
def apply (P : Program) : (fuel : Nat) → Closure → List Value → Action Ret
  | 0, _, _ => Action.outOfFuel
  | fuel + 1, f, args => P.runCode ⟨fun _ => P.apply fuel, fuel⟩ f args

/-- The engine of a program, with fuel.  However a function comes to run, it runs in the
same way. -/
def engine (P : Program) (fuel : Nat) : Engine := ⟨fun _ => P.apply fuel, fuel⟩

end Program

end LuaKernel
