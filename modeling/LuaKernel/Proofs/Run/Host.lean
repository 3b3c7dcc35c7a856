import LuaKernel.Proofs.Run.Congruence

/-!
# The side of the host

A machine has its configuration and its outlets from the host.  Only four primitive actions have to
do with them: three with the configuration, and the one that prints.  All others neither look at
them nor change them (`Action.IgnoresHost`).  So what is to be shown of all actions, and has to do
with the host alone, is shown of these four, and of actions that ignore the host
(`Primitive.elimHost`).
-/

namespace LuaKernel

/-- A machine with the configuration and the outlets changed. -/
def Machine.rehosted (c : Option Config → Option Config) (s s' : Sink → Sink) (m : Machine) :
    Machine :=
  { m with config := c m.config, sink := s m.sink, console := s' m.console }

namespace Action

variable {α β : Type}

/-- An action does the same whatever the configuration and the outlets are, and leaves them as they
are. -/
def IgnoresHost (x : Action α) : Prop :=
  ∀ c s s' m, x (m.rehosted c s s') = ((x m).1, (x m).2.rehosted c s s')

namespace IgnoresHost

/-- Two actions in a row ignore the host if each of them does. -/
theorem bind {x : Action α} {f : α → Action β} (hx : x.IgnoresHost) (hf : ∀ a, (f a).IgnoresHost) :
    (x >>= f).IgnoresHost := by
  intro c s s' m
  have hm := hx c s s' m
  rcases hr : x m with ⟨e | a, m'⟩ <;> rw [hr] at hm
  · rw [bind_of_error f hm, bind_of_error f hr]
  · rw [bind_of_ok f hm, bind_of_ok f hr]
    exact hf a c s s' m'

theorem ofExcept (r : Except Fault α) : (Action.ofExcept r).IgnoresHost := by
  cases r with
  | ok a => exact fun _ _ _ _ => rfl
  | error f => exact fun _ _ _ _ => rfl

theorem advance (counter : Int64) : (advance counter).IgnoresHost := by
  intro c s s' m
  have hcounters : (m.rehosted c s s').counters = m.counters := rfl
  simp only [Action.advance, hcounters]
  split <;> rfl

/-- A raw write looks at a table and at nothing of the host. -/
theorem rawSet (t : TableId) (k v : Value) : (rawSet t k v).IgnoresHost :=
  .bind (fun _ _ _ _ => rfl) fun _ => .bind (.ofExcept _) fun _ _ _ _ _ => rfl

/-- What ignores the host leaves the sink as it was. -/
theorem sink_eq {x : Action α} (h : x.IgnoresHost) (m : Machine) : (x m).2.sink = m.sink :=
  congrArg (fun r => r.2.sink) (h id (fun _ => m.sink) id m)

theorem console_eq {x : Action α} (h : x.IgnoresHost) (m : Machine) : (x m).2.console = m.console :=
  congrArg (fun r => r.2.console) (h id id (fun _ => m.console) m)

end IgnoresHost

end Action

/-- **What holds of the four actions that have to do with the host, and of all actions that ignore
it, holds of every primitive action.** -/
theorem Primitive.elimHost {R : ∀ {α : Type}, Action α → Prop} (config : R Action.config)
    (isConfigured : R Action.isConfigured) (configure : ∀ c, R (Action.configure c))
    (print : ∀ o bytes, R (Action.print o bytes))
    (ignores : ∀ {α : Type} {x : Action α}, x.IgnoresHost → R x) {α : Type} {x : Action α}
    (h : Primitive x) : R x := by
  cases h with
  | config => exact config
  | isConfigured => exact isConfigured
  | configure c => exact configure c
  | print o bytes => exact print o bytes
  | advance counter => exact ignores (.advance counter)
  | pure | raise | heap | putHeap | newTable | table | putTable | newFunction | notice | askCache
    | callDepth | recordStart | register | setRegister => exact ignores fun _ _ _ _ => rfl

end LuaKernel
