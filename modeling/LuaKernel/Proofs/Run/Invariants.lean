import LuaKernel.Proofs.Run.Supervised

/-!
# Properties that runs keep

A property of machines that each action of the machine keeps is kept by everything that a program
does.  So it holds at every point of a run, if it holds at the start
(`Program.always_of_sameWhere`).

The relation behind this is `SameWhere`: two actions do the same where the property holds, and keep
it.  To watch over the property makes no difference to such actions (`SameWhere.watched`), which is
what it means to hold at every point.
-/

namespace LuaKernel

/-- Two actions that do the same where a property holds, and keep it. -/
def SameWhere (good : Machine → Prop) {α : Type} (x y : Action α) : Prop :=
  ∀ m, good m → x m = y m ∧ good (x m).2

/-- A property of machines that depends neither on the depth nor on what a session sets back before
a step. -/
structure Machine.Lasting (good : Machine → Prop) : Prop where
  depth : ∀ {m : Machine} (k : Nat), good m → good { m with depth := k }
  prepared : ∀ {m : Machine} (holdsSink : Bool), good m → good (m.prepared holdsSink)

namespace SameWhere

variable {good : Machine → Prop} {α β : Type}

theorem bind_apply {x y : Action α} {f g : α → Action β} {m : Machine}
    (hx : x m = y m ∧ good (x m).2) (hf : ∀ a, SameWhere good (f a) (g a)) :
    (x >>= f) m = (y >>= g) m ∧ good ((x >>= f) m).2 := by
  obtain ⟨heq, hkept⟩ := hx
  rcases hr : x m with ⟨e | a, m'⟩ <;> rw [hr] at hkept
  · rw [Action.bind_of_error f hr, Action.bind_of_error g (heq ▸ hr)]
    exact ⟨rfl, hkept⟩
  · rw [Action.bind_of_ok f hr, Action.bind_of_ok g (heq ▸ hr)]
    exact hf a m' hkept

/-- There is no alarm for what follows from a property that is kept. -/
theorem watched {weaker : Machine → Prop} (hweaker : ∀ m, good m → weaker m) {x y : Action α}
    (h : SameWhere good x y) (alarm : Action α) :
    SameWhere good (Action.watched weaker alarm x) y := by
  intro m hm
  obtain ⟨heq, hkept⟩ := h m hm
  have hquiet : Action.watched weaker alarm x m = x m := if_pos ⟨hweaker m hm, hweaker _ hkept⟩
  rw [hquiet]
  exact ⟨heq, hkept⟩

/-- Sessions are the same, if their steps are. -/
theorem runSteps (hgood : Machine.Lasting good) {act act' : List Value → Op → Action Answer}
    {steps : List TopStep}
    (h : ∀ s ∈ steps, SameWhere good (s.step.run act []) (s.step.run act' [])) {m : Machine}
    (hm : good m) :
    runSteps act m steps = runSteps act' m steps ∧ good (runSteps act m steps).2 := by
  have hact : ∀ s ∈ steps, ∀ m m', m = m' ∧ good m →
      (s.step.run act [] m).1 = (s.step.run act' [] m').1 ∧
        (s.step.run act [] m).2 = (s.step.run act' [] m').2 ∧ good (s.step.run act [] m).2 := by
    rintro s hs m _ ⟨rfl, hm⟩
    obtain ⟨heq, hkept⟩ := h s hs m hm
    exact ⟨congrArg Prod.fst heq, congrArg Prod.snd heq, hkept⟩
  obtain ⟨hrecords, heq, hend⟩ := runSteps_related (σ := Eq) (ρ := fun m m' => m = m' ∧ good m)
    (fun ⟨heq, hm⟩ holdsSink => ⟨heq ▸ rfl, hgood.prepared holdsSink hm⟩)
    (fun ⟨heq, _⟩ _ => heq ▸ rfl) hact ⟨rfl, hm⟩
  rw [List.forall₂_eq_eq_eq] at hrecords
  exact ⟨Prod.ext hrecords heq, hend⟩

end SameWhere

/-- A property is kept by everything, if each action of the machine keeps it. -/
theorem fullCongruence_sameWhere {good : Machine → Prop}
    (hatom : ∀ {α : Type} {x : Action α}, Atomic x → ∀ m, good m → good (x m).2) :
    FullCongruence (SameWhere good) where
  bind hx hf m hm := SameWhere.bind_apply (hx m hm) hf
  atom h m hm := ⟨rfl, hatom h m hm⟩
  raise _ _ hm := ⟨rfl, hm⟩
  outOfFuel _ hm := ⟨rfl, hm⟩
  cached _ hm := ⟨rfl, hm⟩

theorem keptByCalls_sameWhere {good : Machine → Prop}
    (hdepth : ∀ {m : Machine} (k : Nat), good m → good { m with depth := k }) :
    KeptByCalls (SameWhere good) where
  nested {_ x y} h := by
    intro m hm
    obtain ⟨heq, hkept⟩ := h { m with depth := m.depth + 1 } (hdepth _ hm)
    unfold Action.nested
    rw [← heq]
    exact ⟨rfl, hdepth _ hkept⟩
  catchRuntime {_ x y handle} h hh := by
    intro m hm
    obtain ⟨heq, hkept⟩ := h m hm
    unfold Action.catchRuntime
    rw [← heq]
    split
    · next payload m' hr =>
        rw [hr] at hkept
        exact hh payload m' hkept
    · exact ⟨rfl, hkept⟩

section

variable {good : Machine → Prop} (hgood : Machine.Lasting good)

include hgood

/-- **What each action of the machine keeps holds at every point of a run**, before and after each
operation and each function, and at the end. -/
theorem Program.always_of_sameWhere (F : FullCongruence (SameWhere good)) (P : Program) (fuel : Nat)
    {m : Machine} (hm : good m) : P.Always .none good fuel m ∧ good (P.run fuel m).2 := by
  have C := F.toCongruence
  have hstep : ∀ (alarm : (α : Type) → Action α) (s : Step),
      SameWhere good (P.stepUnder (Supervision.none.watching good alarm) fuel [] s)
        (P.stepUnder .none fuel [] s) := fun alarm s =>
    C.toTameCongruence.stepUnder (keptByCalls_sameWhere hgood.depth) F.outOfFuel
      (fun hE hin args op => (F.performAny hE hin args op).watched (fun _ => id) _)
      (fun _ args _ _ h => (h fun _ => C.rawset args).watched (fun _ => id) _) fuel [] s
  have hsame := fun alarm =>
    SameWhere.runSteps hgood (fun s (_ : s ∈ P.steps) => hstep alarm s.step) hm
  refine ⟨fun alarm => (hsame alarm).1, ?_⟩
  -- Where the run ends does not depend on the alarm, so any alarm will do.
  obtain ⟨heq, hend⟩ := hsame fun _ => Action.outOfFuel
  rw [heq] at hend
  simp only [engineUnder, applyUnder_none] at hend
  rw [run, performAll_eq_runSteps]
  exact hend

/-- To open the global environment keeps such a property. -/
theorem Machine.opened_of_sameWhere (F : FullCongruence (SameWhere good)) {policy : SinkPolicy}
    {counters : CounterPolicy} (hfresh : good (fresh policy counters)) :
    good (opened policy counters) := by
  have C := F.toCongruence
  have hopening := C.bind (C.openEnvironment .sink) fun env =>
    C.tame (.setRegister globalRegister (.table env))
  exact hgood.prepared _ (hopening (fresh policy counters) hfresh).2

end

end LuaKernel
