import LuaKernel.Proofs.Run.Depth
import LuaKernel.Proofs.Run.Host
import LuaKernel.Proofs.Run.Supervised

/-!
# The configuration is settled once

Every run can be told as a history of what it does with the configuration: it reads it, it tries to
install one, and it asks whether there is one (`Consultation`).  Nothing else of a run depends on
the configuration (`Action.Consults.transport`): two machines that differ in it, and on which the
same history is possible, run alike.  Such a history exists for whatever the kernel does
(`fullCongruence_accounted`), also where a read is hidden in a call or an access.

A history is one of a cell that is filled once (`Consultation.Follows`).  Therefore all that is read
in a run that starts without a configuration is one and the same; it is what was installed, if that
came before the first read, and else the standard configuration (`configuration_settled_once`).
-/

namespace LuaKernel

/-! ### Histories -/

/-- What a run does with the configuration, and what it is told. -/
inductive Consultation where
  /-- It reads the configuration. -/
  | read (c : Config)
  /-- It tries to install a configuration. -/
  | install (c : Config) (done : Bool)
  /-- It asks whether there is a configuration. -/
  | question (answer : Bool)

/-- A machine with another configuration, or with none. -/
def Machine.withConfig (cell : Option Config) (m : Machine) : Machine := { m with config := cell }

/-- An action does the same whatever the configuration is, and leaves it as it is. -/
def Action.Blind {α : Type} (x : Action α) : Prop :=
  ∀ m cell, x (m.withConfig cell) = ((x m).1, (x m).2.withConfig cell)

/-- What an action does with the configuration on a machine, in the order of time. -/
inductive Action.Consults : {α : Type} → Action α → Machine → List Consultation → Prop where
  | blind {α : Type} {x : Action α} (h : x.Blind) (m : Machine) : Consults x m []
  | read {c : Config} {m m' : Machine} (h : config m = (.ok c, m')) : Consults config m [.read c]
  | install {c : Config} {done : Bool} {m m' : Machine} (h : configure c m = (.ok done, m')) :
      Consults (configure c) m [.install c done]
  | question {answer : Bool} {m m' : Machine} (h : isConfigured m = (.ok answer, m')) :
      Consults isConfigured m [.question answer]
  | stop {α β : Type} {x : Action α} (f : α → Action β) {m m' : Machine} {e : Halt}
      {es : List Consultation} (first : Consults x m es) (h : x m = (.error e, m')) :
      Consults (x >>= f) m es
  | next {α β : Type} {x : Action α} {f : α → Action β} {m m' : Machine} {a : α}
      {es es' : List Consultation} (first : Consults x m es) (h : x m = (.ok a, m'))
      (second : Consults (f a) m' es') : Consults (x >>= f) m (es ++ es')
  | nested {α : Type} {x : Action α} {m : Machine} {es : List Consultation}
      (inner : Consults x { m with depth := m.depth + 1 } es) : Consults (nested x) m es
  | passed {α : Type} {x : Action α} (handle : Value → Action α) {m : Machine}
      {es : List Consultation} (inner : Consults x m es)
      (h : ∀ v, (x m).1 ≠ .error (.error (.runtime v))) :
      Consults (catchRuntime x handle) m es
  | caught {α : Type} {x : Action α} {handle : Value → Action α} {m m' : Machine} {v : Value}
      {es es' : List Consultation} (inner : Consults x m es)
      (h : x m = (.error (.error (.runtime v)), m')) (handled : Consults (handle v) m' es') :
      Consults (catchRuntime x handle) m (es ++ es')

namespace Consultation

/-- What one consultation does to the place of the configuration, and what it is told. -/
inductive Step : Option Config → Consultation → Option Config → Prop where
  | read (cell : Option Config) :
      Step cell (.read (cell.getD .standard)) (some (cell.getD .standard))
  | install (c : Config) : Step none (.install c true) (some c)
  | reject (c held : Config) : Step (some held) (.install c false) (some held)
  | question (cell : Option Config) : Step cell (.question cell.isSome) cell

/-- What a history does to the place of the configuration. -/
inductive Follows : Option Config → List Consultation → Option Config → Prop where
  | nil (cell : Option Config) : Follows cell [] cell
  | cons {cell cell₁ cell₂ : Option Config} {e : Consultation} {es : List Consultation}
      (first : Step cell e cell₁) (rest : Follows cell₁ es cell₂) : Follows cell (e :: es) cell₂

theorem Step.follows {cell cell' : Option Config} {e : Consultation} (h : Step cell e cell') :
    Follows cell [e] cell' := .cons h (.nil _)

namespace Follows

variable {cell cell₁ cell₂ : Option Config} {e : Consultation} {es es' : List Consultation}

theorem step (h : Follows cell [e] cell₁) : Step cell e cell₁ := by
  cases h with
  | cons first rest =>
      cases rest
      exact first

theorem append (h : Follows cell es cell₁) (h' : Follows cell₁ es' cell₂) :
    Follows cell (es ++ es') cell₂ := by
  induction h with
  | nil => exact h'
  | cons first _ ih => exact .cons first (ih h')

/-- A history can be cut anywhere: there is a state of the place between its parts. -/
theorem cut (h : Follows cell (es ++ es') cell₂) :
    ∃ cell₁, Follows cell es cell₁ ∧ Follows cell₁ es' cell₂ := by
  induction es generalizing cell with
  | nil => exact ⟨cell, .nil cell, h⟩
  | cons e es ih =>
      cases h with
      | cons first rest =>
          obtain ⟨cell₁, hfirst, hrest⟩ := ih rest
          exact ⟨cell₁, .cons first hfirst, hrest⟩

end Follows

/-! ### A cell that is filled once -/

/-- Whether a consultation only asks if there is a configuration. -/
def isQuestion : Consultation → Bool
  | .question _ => true
  | _ => false

/-- A history in which the configuration is settled once, and stays so: `c` is what all
reads see. -/
structure Settled (c : Config) (es : List Consultation) : Prop where
  /-- All that is read is the one configuration. -/
  read_eq : ∀ c', .read c' ∈ es → c' = c
  /-- So is what is installed. -/
  installed_eq : ∀ c', .install c' true ∈ es → c' = c
  /-- If nothing is installed, then it is the standard one. -/
  eq_standard : (∀ c', .install c' true ∉ es) → c = .standard
  /-- A configuration is installed if and only if there was neither an attempt nor a read before. -/
  install_iff : ∀ before c' done after, es = before ++ .install c' done :: after →
    (done = true ↔ ∀ e ∈ before, e.isQuestion = true)
  /-- There is no configuration if and only if there was neither an attempt nor a read before. -/
  question_iff : ∀ before answer after, es = before ++ .question answer :: after →
    (answer = false ↔ ∀ e ∈ before, e.isQuestion = true)

section

variable {cell cell' : Option Config} {e : Consultation} {es : List Consultation} {c : Config}

/-- A place is empty behind a consultation if it was before, and only a question was asked. -/
theorem Step.eq_none_iff (h : Step cell e cell') :
    cell' = none ↔ cell = none ∧ e.isQuestion = true := by
  cases h <;> simp [isQuestion]

/-- There is no configuration as long as there are only questions. -/
theorem Follows.eq_none_iff (h : Follows cell es cell') :
    cell' = none ↔ cell = none ∧ ∀ e ∈ es, e.isQuestion = true := by
  induction h with
  | nil cell => simp
  | cons first rest ih => rw [ih, first.eq_none_iff, List.forall_mem_cons, and_assoc]

/-- What holds a configuration keeps it. -/
theorem Step.of_some (h : Step (some c) e cell') : cell' = some c := by
  cases h <;> rfl

/-- What is installed stays installed. -/
theorem Follows.of_some (h : Follows (some c) es cell') : cell' = some c := by
  induction es with
  | nil =>
      cases h
      rfl
  | cons e es ih =>
      cases h with
      | cons first rest =>
          obtain rfl := first.of_some
          exact ih rest

/-- What is read, and what is installed, is in its place from then on. -/
theorem Step.eq_some (h : Step cell e cell') (he : e = .read c ∨ e = .install c true) :
    cell' = some c := by
  rcases he with rfl | rfl
  · cases h
    rfl
  · cases h
    rfl

/-- What was read or installed is held in the end. -/
theorem Follows.eq_some (h : Follows cell es cell') (hmem : e ∈ es)
    (he : e = .read c ∨ e = .install c true) : cell' = some c := by
  induction h with
  | nil cell => exact absurd hmem List.not_mem_nil
  | cons first rest ih =>
      rcases List.mem_cons.1 hmem with rfl | hmem
      · obtain rfl := first.eq_some he
        exact rest.of_some
      · exact ih hmem

/-- Without an installation, what can be read stays as it was. -/
theorem Follows.getD_eq (h : Follows cell es cell') (hno : ∀ c, .install c true ∉ es) :
    cell'.getD .standard = cell.getD .standard := by
  induction h with
  | nil cell => rfl
  | cons first rest ih =>
      rw [ih fun c hc => hno c (List.mem_cons_of_mem _ hc)]
      cases first with
      | read cell => rfl
      | install c => exact absurd List.mem_cons_self (hno c)
      | reject c held => rfl
      | question cell => rfl

/-- To install succeeds if and only if there is no configuration yet. -/
theorem Step.install_iff {done : Bool} (h : Step cell (.install c done) cell') :
    done = true ↔ cell = none := by
  cases h <;> simp

theorem Step.question_iff {answer : Bool} (h : Step cell (.question answer) cell') :
    answer = false ↔ cell = none := by
  cases h
  simp

/-- What is found behind a part of a history tells whether there were only questions in it. -/
theorem Follows.step_after {before after : List Consultation}
    (h : Follows none (before ++ e :: after) cell') :
    ∃ cell₁ cell₂, Step cell₁ e cell₂ ∧ (cell₁ = none ↔ ∀ e ∈ before, e.isQuestion = true) := by
  obtain ⟨cell₁, hbefore, hafter⟩ := h.cut
  cases hafter with
  | cons first rest => exact ⟨cell₁, _, first, hbefore.eq_none_iff.trans (and_iff_right rfl)⟩

/-- **A cell that is empty at first is settled once.** -/
theorem Follows.settled (h : Follows none es cell') : Settled (cell'.getD .standard) es where
  read_eq c' hc := by rw [h.eq_some hc (.inl rfl), Option.getD_some]
  installed_eq c' hc := by rw [h.eq_some hc (.inr rfl), Option.getD_some]
  eq_standard hno := h.getD_eq hno
  install_iff before c' done after hes := by
    obtain ⟨cell₁, cell₂, hstep, hnone⟩ := (hes ▸ h).step_after
    exact hstep.install_iff.trans hnone
  question_iff before answer after hes := by
    obtain ⟨cell₁, cell₂, hstep, hnone⟩ := (hes ▸ h).step_after
    exact hstep.question_iff.trans hnone

end

end Consultation

open Consultation

/-! ### Runs follow their histories -/

namespace Action.Consults

variable {α : Type} {x : Action α} {m : Machine} {es : List Consultation}

/-- To install a configuration changes nothing else. -/
theorem configure_snd (c : Config) (m : Machine) (cell : Option Config) :
    (configure c m).2.withConfig cell = m.withConfig cell := by
  unfold configure
  split
  · rfl
  · rfl

/-- **A run depends on the configuration only by its history.**  Whatever the configuration is, or
if there is none: as long as the history is possible, the action does the same, and leaves what the
history leaves. -/
theorem transport (h : x.Consults m es) {cell cell' : Option Config} (hes : Follows cell es cell') :
    x (m.withConfig cell) = ((x m).1, (x m).2.withConfig cell') := by
  induction h generalizing cell cell' with
  | blind hx m =>
      cases hes
      exact hx m cell
  | read h =>
      cases hes.step
      exact Prod.ext (congrArg Prod.fst h).symm rfl
  | @install c done m m' h =>
      cases hes.step with
      | install => exact Prod.ext (congrArg Prod.fst h).symm (configure_snd c m (some c)).symm
      | reject => exact Prod.ext (congrArg Prod.fst h).symm (configure_snd _ _ _).symm
  | question h =>
      cases hes.step
      exact Prod.ext (congrArg Prod.fst h).symm rfl
  | stop f first h ih =>
      have hfirst := ih hes
      rw [h] at hfirst
      rw [bind_of_error f hfirst, bind_of_error f h]
  | next first h second ih ih' =>
      obtain ⟨cell₁, hes₁, hes₂⟩ := hes.cut
      have hfirst := ih hes₁
      rw [h] at hfirst
      rw [bind_of_ok _ hfirst, bind_of_ok _ h]
      exact ih' hes₂
  | nested inner ih => exact congrArg leave (ih hes)
  | passed handle inner h ih =>
      have hinner := ih hes
      rw [catchRuntime_of_ne h, catchRuntime_of_ne (by rw [hinner]; exact h), hinner]
  | caught inner h handled ih ih' =>
      obtain ⟨cell₁, hes₁, hes₂⟩ := hes.cut
      have hinner := ih hes₁
      rw [h] at hinner
      rw [catchRuntime_of_runtime hinner, catchRuntime_of_runtime h]
      exact ih' hes₂

/-- The configuration after an action is the one that its history leaves. -/
theorem follows (h : x.Consults m es) : Follows m.config es (x m).2.config := by
  induction h with
  | blind hx m =>
      have hkept := congrArg (fun r => r.2.config) (hx m m.config)
      exact hkept ▸ .nil m.config
  | read h =>
      cases h
      exact (Step.read _).follows
  | install h =>
      unfold configure at h ⊢
      split at h
      · next hnone =>
          cases h
          rw [hnone]
          exact (Step.install _).follows
      · next held hsome =>
          cases h
          rw [hsome]
          exact (Step.reject _ held).follows
  | question h =>
      cases h
      exact (Step.question _).follows
  | stop f first h ih =>
      rw [bind_of_error f h]
      rwa [h] at ih
  | next first h second ih ih' =>
      rw [h] at ih
      rw [bind_of_ok _ h]
      exact ih.append ih'
  | nested inner ih => exact ih
  | passed handle inner h ih =>
      rw [catchRuntime_of_ne h]
      exact ih
  | caught inner h handled ih ih' =>
      rw [h] at ih
      rw [catchRuntime_of_runtime h]
      exact ih.append ih'

end Action.Consults

/-! ### Every run has a history -/

/-- On every machine, an action has a history. -/
def Action.Accounted {α : Type} (x : Action α) : Prop := ∀ m, ∃ es, x.Consults m es

namespace Action.Accounted

variable {α β : Type}

theorem of_ignoresHost {x : Action α} (h : x.IgnoresHost) : x.Accounted := fun m =>
  ⟨[], .blind (fun m cell => h (fun _ => cell) id id m) m⟩

/-- What begins with a read does so whatever comes behind it. -/
theorem bind {x : Action α} {f : α → Action β} (hx : x.Accounted) (hf : ∀ a, (f a).Accounted) :
    (x >>= f).Accounted := by
  intro m
  obtain ⟨es, hes⟩ := hx m
  rcases hr : x m with ⟨e | a, m'⟩
  · exact ⟨es, .stop f hes hr⟩
  · obtain ⟨es', hes'⟩ := hf a m'
    exact ⟨es ++ es', .next hes hr hes'⟩

theorem catchRuntime {x : Action α} {handle : Value → Action α} (hx : x.Accounted)
    (hh : ∀ v, (handle v).Accounted) : (catchRuntime x handle).Accounted := by
  intro m
  obtain ⟨es, hes⟩ := hx m
  by_cases hr : ∃ v, (x m).1 = .error (.error (.runtime v))
  · obtain ⟨v, hr⟩ := hr
    obtain ⟨es', hes'⟩ := hh v (x m).2
    exact ⟨es ++ es', .caught hes (Prod.ext hr rfl) hes'⟩
  · exact ⟨es, .passed handle hes fun v hv => hr ⟨v, hv⟩⟩

theorem configure (c : Config) : (configure c).Accounted := by
  intro m
  cases hm : m.config with
  | none => exact ⟨[.install c true], .install (by unfold Action.configure; rw [hm])⟩
  | some held => exact ⟨[.install c false], .install (by unfold Action.configure; rw [hm])⟩

/-- Printing neither looks at the configuration nor changes it. -/
theorem print (o : Outlet) (bytes : List UInt8) : (print o bytes).Accounted := by
  refine fun m => ⟨[], .blind (fun m cell => ?_) m⟩
  have hlook : outlet o (m.withConfig cell) = outlet o m := by
    cases o with
    | sink => rfl
    | console => rfl
  have hput : ∀ s, putOutlet o s (m.withConfig cell) = (putOutlet o s m).withConfig cell := by
    cases o with
    | sink => exact fun _ => rfl
    | console => exact fun _ => rfl
  unfold Action.print
  rw [hlook]
  split
  · rfl
  · rcases (outlet o m).print bytes with ⟨s, failure⟩
    cases failure with
    | none => exact congrArg (Prod.mk _) (hput s)
    | some failure => exact congrArg (Prod.mk _) (hput s)

end Action.Accounted

/-- Everything that the kernel does has a history. -/
theorem fullCongruence_accounted : FullCongruence (fun {_} x _ => x.Accounted) where
  bind := Action.Accounted.bind
  atom h := h.of_primitive (R := Action.Accounted)
    (fun h => h.elimHost (R := Action.Accounted) (fun _ => ⟨_, .read rfl⟩)
      (fun _ => ⟨_, .question rfl⟩) .configure .print .of_ignoresHost)
    .bind
  raise _ := .of_ignoresHost fun _ _ _ _ => rfl
  outOfFuel := .of_ignoresHost fun _ _ _ _ => rfl
  cached := .of_ignoresHost fun _ _ _ _ => rfl

/-- What is done one call deeper, and what catches an error, has a history if what is inside has
one. -/
theorem keptByCalls_accounted : KeptByCalls (fun {_} x _ => x.Accounted) where
  nested h m := by
    obtain ⟨es, hes⟩ := h { m with depth := m.depth + 1 }
    exact ⟨es, .nested hes⟩
  catchRuntime := .catchRuntime

namespace Program

variable (P : Program) (fuel : Nat)

/-- What the steps of a session do with the configuration. -/
inductive History (P : Program) (fuel : Nat) :
    Machine → List TopStep → List Consultation → Prop where
  | nil (m : Machine) : History P fuel m [] []
  | cons {m : Machine} {s : TopStep} {rest : List TopStep} {es es' : List Consultation}
      (first : (s.step.run (Op.perform (P.engine fuel)) []).Consults (m.prepared s.holdsSink) es)
      (others : History P fuel (P.perform fuel m s).2 rest es') :
      History P fuel m (s :: rest) (es ++ es')

/-- Every session has a history. -/
theorem exists_history (m : Machine) (steps : List TopStep) : ∃ es, P.History fuel m steps es := by
  induction steps generalizing m with
  | nil => exact ⟨[], .nil m⟩
  | cons s rest ih =>
      obtain ⟨es, hes⟩ := fullCongruence_accounted.stepAny keptByCalls_accounted P fuel [] s.step
        (m.prepared s.holdsSink)
      obtain ⟨es', hes'⟩ := ih (P.perform fuel m s).2
      exact ⟨es ++ es', .cons hes hes'⟩

variable {P fuel} {m : Machine} {s : TopStep} {steps : List TopStep} {es : List Consultation}

/-- The configuration after a session is the one that its history leaves. -/
theorem History.follows (h : P.History fuel m steps es) :
    Follows m.config es (P.performAll fuel m steps).2.config := by
  induction h with
  | nil m => exact .nil m.config
  | cons first others ih => exact first.follows.append ih

/-- A session depends on the configuration only by its history. -/
theorem History.transport (h : P.History fuel m steps es) {cell cell' : Option Config}
    (hes : Follows cell es cell') : P.performAll fuel (m.withConfig cell) steps =
      ((P.performAll fuel m steps).1, (P.performAll fuel m steps).2.withConfig cell') := by
  induction h generalizing cell with
  | nil m =>
      cases hes
      rfl
  | @cons m s rest es es' first others ih =>
      obtain ⟨cell₁, hes₁, hes₂⟩ := hes.cut
      have hfirst : P.perform fuel (m.withConfig cell) s =
          ((P.perform fuel m s).1, (P.perform fuel m s).2.withConfig cell₁) :=
        congrArg StepRecord.ofEnd (first.transport hes₁)
      simp only [performAll, hfirst, ih hes₂]

end Program

/-! ### What reads the configuration -/

/-- An action reads the configuration before it does anything that depends on it: it does the same
where the configuration was read before. -/
def Action.ReadsFirst {α : Type} (x : Action α) : Prop := ∀ m : Machine, x m = x m.configured

namespace Action.ReadsFirst

variable {α β : Type}

theorem config_bind (f : Config → Action α) : (config >>= f).ReadsFirst := fun _ => rfl

theorem bind {x : Action α} (hx : x.ReadsFirst) (f : α → Action β) : (x >>= f).ReadsFirst := by
  intro m
  rcases hr : x m.configured with ⟨e | a, m'⟩
  · rw [bind_of_error f ((hx m).trans hr), bind_of_error f hr]
  · rw [bind_of_ok f ((hx m).trans hr), bind_of_ok f hr]

theorem catchRuntime {x : Action α} (hx : x.ReadsFirst) (handle : Value → Action α) :
    (catchRuntime x handle).ReadsFirst := by
  intro m
  unfold Action.catchRuntime
  rw [hx m]

/-- What comes before may be anything that has nothing to do with the host and does not fail. -/
theorem ignoresHost_bind {x : Action α} (hx : x.IgnoresHost) (hok : ∀ m, ∃ a m', x m = (.ok a, m'))
    {f : α → Action β} (hf : ∀ a, (f a).ReadsFirst) : (x >>= f).ReadsFirst := by
  intro m
  obtain ⟨a, m', hr⟩ := hok m
  have hm : x m.configured = (.ok a, m'.configured) :=
    (hx (fun cell => some (cell.getD .standard)) id id m).trans (by rw [hr]; rfl)
  rw [bind_of_ok f hr, bind_of_ok f hm]
  exact hf a m'

/-- Such an action has a history that begins with a read. -/
theorem exists_consults {x : Action α} (hx : x.ReadsFirst) (haccounted : x.Accounted)
    (m : Machine) : ∃ es, x.Consults m (.read m.limits :: es) := by
  obtain ⟨es, hes⟩ := haccounted m.configured
  -- To read the configuration once more before makes no difference.
  have hsame : (config >>= fun _ => x) = x := funext fun m => (hx m).symm
  have hread : (config >>= fun _ => x).Consults m ([.read m.limits] ++ es) :=
    .next (.read rfl) rfl hes
  exact ⟨es, hsame ▸ hread⟩

theorem openEnvironment (o : Outlet) : (Library.openEnvironment o).ReadsFirst :=
  ignoresHost_bind (fun _ _ _ _ => rfl) (fun _ => ⟨_, _, rfl⟩) fun env =>
    ignoresHost_bind (.rawSet env _ _) (fun _ => ⟨(), _, rfl⟩) fun _ => config_bind _

end Action.ReadsFirst

/-- The operations that read the configuration, whatever becomes of them. -/
def Op.readsConfig (args : List Value) : Op → Bool
  | .config | .getIndex | .setIndex | .call | .callOne | .callNone | .protectedCall
    | .openEnvironment | .openConsole => true
  | .length => (argument args 0).isTable
  | _ => false

namespace Engine

variable (E : Engine)

theorem readsFirst_getIndex (receiver key : Value) : (E.getIndex receiver key).ReadsFirst :=
  .config_bind _

theorem readsFirst_setIndex (receiver key v : Value) : (E.setIndex receiver key v).ReadsFirst :=
  .config_bind _

theorem readsFirst_invoke (mode : Mode) (callee : Value) (args : List Value) :
    (E.invoke mode callee args).ReadsFirst := .config_bind _

/-- The length of a table reads the configuration on both ways: by the call of a handler, or by the
access to the first position. -/
theorem readsFirst_length (hprobes : 0 < E.probes) (t : TableId) :
    (E.length (.table t)).ReadsFirst := by
  refine .ignoresHost_bind (fun _ _ _ _ => rfl) (fun _ => ⟨_, _, rfl⟩) fun μ => ?_
  dsimp only
  split
  · obtain ⟨probes, hprobes⟩ := Nat.exists_eq_add_one.2 hprobes
    rw [hprobes]
    exact .bind (.bind (E.readsFirst_getIndex _ _) _) _
  · exact .bind (E.readsFirst_invoke _ _ _) _

/-- The operations that read the configuration read it before anything else. -/
theorem readsFirst_perform (hprobes : 0 < E.probes) (args : List Value) {op : Op}
    (h : op.readsConfig args = true) : (op.perform E args).ReadsFirst := by
  cases op with
  | config => exact .config_bind _
  | getIndex => exact .bind (E.readsFirst_getIndex _ _) _
  | setIndex => exact .bind (E.readsFirst_setIndex _ _ _) _
  | call | callOne | callNone => exact .bind (.bind (E.readsFirst_invoke _ _ _) _) _
  | protectedCall => exact .bind (.catchRuntime (.bind (E.readsFirst_invoke _ _ _) _) _) _
  | openEnvironment | openConsole => exact .bind (.openEnvironment _) _
  | length =>
      unfold Op.perform Op.act
      unfold Op.readsConfig at h
      cases hv : argument args 0 with
      | table t => exact .bind (E.readsFirst_length hprobes t) _
      | nil | boolean _ | number _ | string _ | function _ =>
          rw [hv] at h
          exact absurd h Bool.false_ne_true
  | _ => exact absurd h Bool.false_ne_true

end Engine

/-- Every operation of a program has a history. -/
theorem Program.accounted_perform (P : Program) (fuel : Nat) (args : List Value) (op : Op) :
    (op.perform (P.engine fuel) args).Accounted :=
  fullCongruence_accounted.performAny
    (fullCongruence_accounted.relatedAny keptByCalls_accounted P fuel)
    (fullCongruence_accounted.applyAny keptByCalls_accounted P fuel) args op

/-- An action that reads the configuration leaves it installed. -/
theorem Action.ReadsFirst.config_eq {α : Type} {x : Action α} (hx : x.ReadsFirst)
    (haccounted : x.Accounted) (m : Machine) : (x m).2.config = some m.limits := by
  obtain ⟨es, hes⟩ := haccounted m.configured
  rw [hx m]
  exact hes.follows.of_some

/-- What a host is told that wants to install a configuration. -/
theorem Op.perform_configure (E : Engine) (args : List Value) (c : Config) (m : Machine) :
    Op.perform E args (.configure c) m =
      if m.config.isSome then (.ok (.report (.rejected c)), m)
      else (.ok (.report .installed), m.withConfig (some c)) := by
  cases hm : m.config with
  | none =>
      have hdone : Action.configure c m = (.ok true, m.withConfig (some c)) := by
        unfold Action.configure
        rw [hm]
        rfl
      exact Action.bind_of_ok _ hdone
  | some held =>
      have hdone : Action.configure c m = (.ok false, m) := by
        unfold Action.configure
        rw [hm]
      exact Action.bind_of_ok _ hdone

/-- **The configuration is settled once.**  A session that starts without one has a history, and in
every history of it all reads see one configuration: the one that was installed, if one was, and
else the standard one.  It is installed if and only if there was neither an attempt nor a read
before, and so is the answer to the question whether there is one.  Nothing in the session depends
on the configuration but by this history: with any configuration with which the history is possible,
the session is the same.

A configuration that is rejected is given back, and nothing changes.  Accesses, calls, the lengths
of tables and new environments begin with a read of the configuration: they do what they do where it
is installed already, and leave it installed. -/
theorem configuration_settled_once (P : Program) (fuel : Nat) :
    (∀ m : Machine, m.config = none → (∃ es, P.History fuel m P.steps es) ∧
      ∀ es, P.History fuel m P.steps es → Settled (P.run fuel m).2.limits es) ∧
    (∀ (m : Machine) es, P.History fuel m P.steps es → ∀ cell cell', Follows cell es cell' →
      P.run fuel (m.withConfig cell) = ((P.run fuel m).1, (P.run fuel m).2.withConfig cell')) ∧
    (∀ args c (m : Machine), Op.perform (P.engine fuel) args (.configure c) m =
      if m.config.isSome then (.ok (.report (.rejected c)), m)
      else (.ok (.report .installed), m.withConfig (some c))) ∧
    ∀ (args : List Value) (op : Op), op.readsConfig args = true → ∀ m : Machine,
      (∃ es, (op.perform (P.engine (fuel + 1)) args).Consults m (.read m.limits :: es)) ∧
        op.perform (P.engine (fuel + 1)) args m =
          op.perform (P.engine (fuel + 1)) args m.configured ∧
        (op.perform (P.engine (fuel + 1)) args m).2.config = some m.limits := by
  refine ⟨fun m hm => ⟨P.exists_history fuel m P.steps, fun es hes => ?_⟩,
    fun m es hes cell cell' => hes.transport, Op.perform_configure (P.engine fuel),
    fun args op hop m => ?_⟩
  · have hfollows := hes.follows
    rw [hm] at hfollows
    exact hfollows.settled
  · have hfirst := (P.engine (fuel + 1)).readsFirst_perform (Nat.succ_pos fuel) args hop
    have haccounted := P.accounted_perform (fuel + 1) args op
    exact ⟨hfirst.exists_consults haccounted m, hfirst m, hfirst.config_eq haccounted m⟩

/-- The configuration that a host installs first. -/
def shortLimits : Config := ⟨4, 8, "short"⟩

/-- A program that asks whether there is a configuration, installs one, and calls a function that
wants to install another one, and reads. -/
def configuring : Program where
  prototypes := #[{
    body := [
      .mk (.op (.configure .standard)) [] .nowhere,
      .mk (.op .config) [] .nowhere] }]
  steps := [
    { step := .mk (.op .isConfigured) [] .nowhere },
    { step := .mk (.op (.configure shortLimits)) [] .nowhere },
    { step := .mk (.op .call) [.one (.function "late" 0)] .nowhere }]

/-- The configuration of the first step is the one that all later steps see, and no other is
accepted. -/
theorem configuring_settles :
    (Machine.fresh .accepts .wraps).config = none ∧
    (∃ es, configuring.History 3 (.fresh .accepts .wraps) configuring.steps es ∧
      Settled shortLimits es) ∧
    Op.perform (configuring.engine 3) [] (.configure .standard)
        (configuring.run 3 (.fresh .accepts .wraps)).2 =
      (.ok (.report (.rejected .standard)), (configuring.run 3 (.fresh .accepts .wraps)).2) ∧
    (Op.perform (configuring.engine 4) [.nil, .nil] .getIndex (.fresh .accepts .wraps)).2.config =
      some .standard := by
  obtain ⟨hsettled, -, hconfigure, hreads⟩ := configuration_settled_once configuring 3
  have hfresh : (Machine.fresh .accepts .wraps).config = none := rfl
  obtain ⟨⟨es, hes⟩, hall⟩ := hsettled _ hfresh
  have hend : (configuring.run 3 (.fresh .accepts .wraps)).2.config = some shortLimits := by
    decide +kernel
  have hlimits : (configuring.run 3 (.fresh .accepts .wraps)).2.limits = shortLimits := by
    rw [Machine.limits, hend, Option.getD_some]
  refine ⟨hfresh, ⟨es, hes, hlimits ▸ hall es hes⟩, ?_, (hreads [.nil, .nil] .getIndex rfl _).2.2⟩
  rw [hconfigure, hend]
  rfl

end LuaKernel
