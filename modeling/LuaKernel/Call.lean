import LuaKernel.Metatable

/-!
# Calls

How a value is called.  A function runs its code; any other value is called through the `__call`
function of its metatable, with itself as the first argument.  Every call is one level deeper than
what makes it, also for as long as it takes to find out that the value cannot be called, and a call
below the deepest level fails before it begins.

How the code of a function is run is not known here: an `Engine` brings it along.  It is told how a
function comes to run, so that a run can be watched from outside.
-/

namespace LuaKernel

/-- How a function comes to run. -/
inductive Mode where
  /-- By a call. -/
  | called
  /-- By a protected call. -/
  | guarded
  /-- As part of the present call. -/
  | inlined
deriving DecidableEq

/-- How the code of a function is run, and how far a length is counted. -/
structure Engine where
  /-- Runs the code of a function on arguments. -/
  apply : Mode → Closure → List Value → Action Ret
  /-- How many positions a length may probe. -/
  probes : Nat

namespace Engine

variable (E : Engine)

/-- Runs what a value does when it is called. -/
def enter (mode : Mode) (callee : Value) (args : List Value) : Action Ret :=
  match callee with
  | .function f => E.apply mode f args
  | _ => do
    match (← Action.heap).metafield callee .call with
    | .function handler => do
      Action.notice (.callingValue callee.kind)
      E.apply mode handler (callee :: args)
    | _ => Action.fault (.notCallable callee.kind)

/-- Calls a value. -/
def invoke (mode : Mode) (callee : Value) (args : List Value) : Action Ret := do
  let limit := (← Action.config).maxCallDepth
  let depth ← Action.callDepth
  if limit ≤ depth then
    Action.notice (.depthReached depth)
    Action.fault .stackOverflow
  else Action.nested (E.enter mode callee args)

/-- Calls a value for all its results. -/
def call (callee : Value) (args : List Value) : Action (List Value) := do
  return (← E.invoke .called callee args).toList

/-- Calls a value for its first result, or nil. -/
def callOne (callee : Value) (args : List Value) : Action Value := do
  return (← E.invoke .called callee args).first

/-- Calls a value for none of its results. -/
def callNone (callee : Value) (args : List Value) : Action Unit := do
  let _ ← E.invoke .called callee args
  return ()

/-- Calls a value and catches a runtime error: true before the results, or false before the value
that the error carries. -/
def protectedCall (callee : Value) (args : List Value) : Action (List Value) :=
  Action.catchRuntime
    (do return .boolean true :: (← E.invoke .guarded callee args).toList)
    (fun payload => do
      Action.notice (.caught payload)
      return [.boolean false, payload])

end Engine

end LuaKernel
