import LuaKernel.Script.Run

/-!
# Sessions

A session runs the steps of a program one after the other on one machine.  A step that fails does
not end the session.  Each step has its own record: how it ended, which functions were started on
the way, and what went to the log.
-/

namespace LuaKernel

/-- The record of a step at the top of a program. -/
structure StepRecord where
  outcome : Except Halt Completion
  trace : List Started
  log : List Notice

namespace Machine

/-- The machine with an empty trace and an empty log, and with the sink held or free. -/
def prepared (m : Machine) (holdsSink : Bool) : Machine :=
  { m with trace := [], log := [], sink := { m.sink with held := holdsSink } }

/-- The machine of a host that has not yet done anything. -/
def fresh (policy : SinkPolicy) (counters : CounterPolicy) : Machine :=
  { sink := { policy }, counters }

/-- The machine of a host that has read the configuration and opened the global environment. -/
def opened (policy : SinkPolicy) (counters : CounterPolicy) : Machine :=
  let opening : Action Unit := do
    let env ← Library.openEnvironment .sink
    Action.setRegister globalRegister (.table env)
  (opening (fresh policy counters)).2.prepared false

/-- The text that the sink took. -/
def output (m : Machine) : String := Utf8.decodeString m.sink.written

end Machine

namespace Program

/-- Runs one step at the top of a program. -/
def perform (P : Program) (fuel : Nat) (m : Machine) (s : TopStep) : StepRecord × Machine :=
  match s.step.run (Op.perform (P.engine fuel)) [] (m.prepared s.holdsSink) with
  | (outcome, m') => (⟨outcome, m'.trace.reverse, m'.log.reverse⟩, m'.prepared false)

/-- Runs some steps at the top of a program. -/
def performAll (P : Program) (fuel : Nat) (m : Machine) : List TopStep → List StepRecord × Machine
  | [] => ([], m)
  | s :: rest =>
    let (record, m₁) := P.perform fuel m s
    let (records, m₂) := P.performAll fuel m₁ rest
    (record :: records, m₂)

/-- Runs a program on a machine. -/
def run (P : Program) (fuel : Nat) (m : Machine) : List StepRecord × Machine :=
  P.performAll fuel m P.steps

end Program

end LuaKernel
