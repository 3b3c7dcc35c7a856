import LuaKernel.Proofs.Run.Host
import LuaKernel.Proofs.Run.Invariants
import LuaKernel.Proofs.Text.Sequences

/-!
# Printing converts before it writes

To print is to convert all arguments, from left to right, and then to write one line
(`print_converts_first`).  The conversions run handlers, which may do anything: they may also print,
and to the same outlet.  If one of them fails, then so does the printing, with its error and without
a trace of its own.  Otherwise the sink takes a part of the line from its front, behind what the
handlers have printed.

What a sink takes and how printing ends then is told by what the sink does (`Sink.Finishes`).  This
is settled before the first conversion, since no handler can change it (`Sink.Extends`): a sink is
held and limited by the host.
-/

namespace LuaKernel

/-! ### Conversions -/

/-- Values are converted one after the other, each on the machine that the conversions before it
left. -/
inductive Engine.Converts (E : Engine) : List Value → Machine → List String → Machine → Prop where
  | nil (m : Machine) : Converts E [] m [] m
  | cons {v : Value} {vs : List Value} {m m₁ m₂ : Machine} {s : String} {ss : List String}
      (first : E.toText v m = (.ok s, m₁)) (rest : Converts E vs m₁ ss m₂) :
      Converts E (v :: vs) m (s :: ss) m₂

/-- The first conversion that fails: all values before it are converted, and no value behind
it is. -/
inductive Engine.FailsToConvert (E : Engine) : List Value → Machine → Halt → Machine → Prop where
  | intro {earlier : List Value} {v : Value} (later : List Value) {m m₁ m₂ : Machine}
      {texts : List String} {h : Halt} (converted : E.Converts earlier m texts m₁)
      (fails : E.toText v m₁ = (.error h, m₂)) :
      FailsToConvert E (earlier ++ v :: later) m h m₂

namespace Engine

variable {E : Engine} {vs : List Value} {m m' : Machine}

/-- The conversion of all values succeeds if each of them does. -/
theorem Converts.toTexts_eq {texts : List String} (h : E.Converts vs m texts m') :
    E.toTexts vs m = (.ok texts, m') := by
  induction h with
  | nil m => rfl
  | cons first _ ih =>
      rw [toTexts, Action.bind_of_ok _ first, Action.bind_of_ok _ ih]
      rfl

/-- The conversion of all values fails as the first of them that does. -/
theorem FailsToConvert.toTexts_eq {h : Halt} (hfails : E.FailsToConvert vs m h m') :
    E.toTexts vs m = (.error h, m') := by
  obtain ⟨later, converted, fails⟩ := hfails
  induction converted with
  | nil m => exact Action.bind_of_error _ fails
  | cons first _ ih =>
      rw [List.cons_append, toTexts, Action.bind_of_ok _ first, Action.bind_of_error _ (ih fails)]

theorem FailsToConvert.cons {v : Value} {s : String} {h : Halt} {m₁ : Machine}
    (first : E.toText v m = (.ok s, m₁)) (rest : E.FailsToConvert vs m₁ h m') :
    E.FailsToConvert (v :: vs) m h m' := by
  obtain ⟨later, converted, fails⟩ := rest
  exact .intro later (.cons first converted) fails

/-- Either all values are converted, or there is a first that cannot be. -/
theorem converts_or_fails (E : Engine) (vs : List Value) (m : Machine) :
    (∃ texts m', E.Converts vs m texts m') ∨ ∃ h m', E.FailsToConvert vs m h m' := by
  induction vs generalizing m with
  | nil => exact .inl ⟨[], m, .nil m⟩
  | cons v vs ih =>
      rcases hv : E.toText v m with ⟨h | s, m₁⟩
      · exact .inr ⟨h, m₁, .intro vs (.nil m) hv⟩
      · rcases ih m₁ with ⟨texts, m', hrest⟩ | ⟨h, m', hrest⟩
        · exact .inl ⟨s :: texts, m', .cons hv hrest⟩
        · exact .inr ⟨h, m', .cons hv hrest⟩

end Engine

/-! ### Lines -/

/-- Encoding goes through a separator. -/
theorem Utf8.encode_intercalate (sep : List Char) (texts : List (List Char)) :
    encode (sep.intercalate texts) = (encode sep).intercalate (texts.map encode) := by
  induction texts with
  | nil => rfl
  | cons first rest ih =>
      cases rest with
      | nil => simp only [List.map_cons, List.map_nil, List.intercalate_singleton]
      | cons second rest =>
          simp only [List.map_cons] at ih ⊢
          rw [List.intercalate_cons_cons, List.intercalate_cons_cons, encode_append, encode_append,
            ih]

/-- A line in bytes: those of the texts with tabulators between them, and a newline. -/
theorem Library.bytes_line (texts : List String) :
    Utf8.bytes (Library.line texts) = [0x09].intercalate (texts.map Utf8.bytes) ++ [0x0A] := by
  rw [line, Utf8.bytes, String.toList_append, Utf8.encode_append, String.toList_intercalate,
    Utf8.encode_intercalate, List.map_map]
  rfl

/-! ### Sinks -/

/-- A sink as it may be found later in a run: it does what it did, it is held if it was, and what it
took is still there. -/
structure Sink.Extends (s s' : Sink) : Prop where
  policy : s'.policy = s.policy
  held : s'.held = s.held
  written : s.written <+: s'.written

/-- A sink takes so many more bytes. -/
def Sink.Takes (s : Sink) (n : Nat) : Prop :=
  match s.policy with
  | .accepts | .failsFlush => True
  | .refusesWrites => False
  | .limited capacity => n ≤ capacity - s.written.length

/-- How printing a line to a sink ends: the sink takes a part of the line, and there is a result, or
an error. -/
structure Sink.Finishes (s : Sink) (line taken : List UInt8) (result : Except Halt Ret) : Prop where
  /-- The part is at the front of the line. -/
  front : taken <+: line
  /-- It is the whole line if the sink takes so much, even if it cannot be flushed then. -/
  whole : s.held = false → s.Takes line.length → taken = line
  /-- It is what fits, if the sink takes only so many bytes in all. -/
  limited : ∀ capacity, s.held = false → s.policy = .limited capacity →
    taken = line.take (capacity - s.written.length)
  /-- It is nothing, if the host holds the sink. -/
  held : s.held = true →
    taken = [] ∧ result = .error (.error (.internal "print sink is already borrowed"))
  /-- There is a result if and only if the sink is free, takes the line, and can be flushed. -/
  succeeds_iff : result = .ok .none ↔ s.held = false ∧ s.Takes line.length ∧ s.policy ≠ .failsFlush
  /-- No protected call catches the error. -/
  fatal : result = .ok .none ∨ ∃ e, result = .error (.error e) ∧ e.isRecoverable = false

namespace Sink

variable {s s' s'' : Sink}

theorem Extends.refl (s : Sink) : s.Extends s := ⟨rfl, rfl, List.prefix_rfl⟩

theorem Extends.trans (h : s.Extends s') (h' : s'.Extends s'') : s.Extends s'' :=
  ⟨h'.policy.trans h.policy, h'.held.trans h.held, h.written.trans h'.written⟩

/-- A sink takes so many bytes if and only if no write of them fails. -/
theorem takes_iff_writes {n : Nat} : s.Takes n ↔ s.writeFailure? n = none := by
  unfold Takes writeFailure? room
  cases s.policy with
  | accepts | refusesWrites | failsFlush => simp
  | limited capacity =>
      simp only [ite_eq_right_iff, reduceCtorEq, imp_false]
      omega

theorem flushes_iff : s.policy ≠ .failsFlush ↔ s.flushFailure? = none := by
  simp only [flushFailure?, ite_eq_right_iff, reduceCtorEq, imp_false, ne_eq]

/-- A sink that takes so many bytes has room for them. -/
theorem room_of_takes {n : Nat} (h : s.Takes n) : s.room n = n := by
  unfold Takes at h
  unfold room
  cases hp : s.policy with
  | accepts | failsFlush => rfl
  | refusesWrites => rw [hp] at h; exact h.elim
  | limited capacity => rw [hp] at h; exact Nat.min_eq_left h

/-- What a free sink takes of a line. -/
theorem finishes_of_free {line : List UInt8} {result : Except Halt Ret} (hfree : s.held = false)
    (hresult : result = match (s.print line).2 with
      | none => .ok .none
      | some failure => .error (.error (.output failure.text))) :
    s.Finishes line (line.take (s.room line.length)) result where
  front := List.take_prefix _ _
  whole _ htakes := by rw [room_of_takes htakes, List.take_length]
  limited capacity _ hp := by
    simp only [room, hp]
    rw [Nat.min_comm, ← List.take_eq_take_min]
  held hheld := absurd (hfree.symm.trans hheld) Bool.false_ne_true
  succeeds_iff := by
    rw [takes_iff_writes, flushes_iff, hresult]
    simp only [print]
    cases s.writeFailure? line.length with
    | some failure => simp
    | none =>
        cases s.flushFailure? with
        | some failure => simp
        | none => simp [hfree]
  fatal := by
    rw [hresult]
    cases (s.print line).2 with
    | none => exact .inl rfl
    | some failure => exact .inr ⟨_, rfl, rfl⟩

/-- A held sink takes nothing. -/
theorem finishes_of_held {line : List UInt8} (hheld : s.held = true) :
    s.Finishes line [] (.error (.error (.internal "print sink is already borrowed"))) where
  front := List.nil_prefix
  whole hfree := absurd (hfree.symm.trans hheld) Bool.false_ne_true
  limited _ hfree := absurd (hfree.symm.trans hheld) Bool.false_ne_true
  held _ := ⟨rfl, rfl⟩
  succeeds_iff := by simp [hheld]
  fatal := .inr ⟨_, rfl, rfl⟩

end Sink

/-! ### Writing a line -/

/-- A machine whose outlet took more bytes. -/
def Machine.outputTo (o : Outlet) (taken : List UInt8) (m : Machine) : Machine :=
  Action.putOutlet o
    { Action.outlet o m with written := (Action.outlet o m).written ++ taken } m

theorem Machine.outputTo_nil (o : Outlet) (m : Machine) : m.outputTo o [] = m := by
  cases o with
  | sink => simp only [outputTo, Action.outlet, Action.putOutlet, List.append_nil]
  | console => simp only [outputTo, Action.outlet, Action.putOutlet, List.append_nil]

/-- What goes to one outlet takes nothing away from the other one. -/
theorem Machine.extends_outputTo (o o' : Outlet) (taken : List UInt8) (m : Machine) :
    (Action.outlet o m).Extends (Action.outlet o (m.outputTo o' taken)) := by
  have htook : ∀ s : Sink, s.Extends { s with written := s.written ++ taken } := fun s =>
    ⟨rfl, rfl, List.prefix_append _ _⟩
  cases o with
  | sink =>
      cases o' with
      | sink => exact htook m.sink
      | console => exact .refl m.sink
  | console =>
      cases o' with
      | sink => exact .refl m.console
      | console => exact htook m.console

/-- To write a line changes nothing but what the outlet took. -/
theorem Action.print_finishes (o : Outlet) (line : List UInt8) (m : Machine) :
    ∃ taken result, (outlet o m).Finishes line taken result ∧
      (do Action.print o line; return Ret.none : Action Ret) m = (result, m.outputTo o taken) := by
  cases hheld : (outlet o m).held with
  | true =>
      refine ⟨[], _, Sink.finishes_of_held hheld, ?_⟩
      rw [m.outputTo_nil]
      exact bind_of_error _ (if_pos hheld)
  | false =>
      have hopen : ¬(outlet o m).held = true := by rw [hheld]; exact Bool.false_ne_true
      rcases hr : (outlet o m).print line with ⟨s, failure⟩
      obtain rfl : ((outlet o m).print line).1 = s := congrArg Prod.fst hr
      have hfailure : ((outlet o m).print line).2 = failure := congrArg Prod.snd hr
      cases failure with
      | none =>
          have hprint : Action.print o line m =
              (.ok (), putOutlet o ((outlet o m).print line).1 m) := by
            unfold Action.print
            rw [if_neg hopen, hr]
          exact ⟨_, .ok .none, Sink.finishes_of_free hheld (by rw [hfailure]), bind_of_ok _ hprint⟩
      | some failure =>
          have hprint : Action.print o line m =
              (.error (.error (.output failure.text)),
                putOutlet o ((outlet o m).print line).1 m) := by
            unfold Action.print
            rw [if_neg hopen, hr]
            rfl
          exact ⟨_, _, Sink.finishes_of_free hheld (by rw [hfailure]), bind_of_error _ hprint⟩

/-! ### Outlets over a run -/

/-- Both sinks of a machine as they may be found later in a run. -/
def Machine.OutletsExtend (m m' : Machine) : Prop :=
  ∀ o, (Action.outlet o m).Extends (Action.outlet o m')

theorem Machine.OutletsExtend.of_eq {m m' : Machine} (hsink : m'.sink = m.sink)
    (hconsole : m'.console = m.console) : m.OutletsExtend m' := by
  intro o
  cases o with
  | sink => exact (congrArg m.sink.Extends hsink).mpr (.refl m.sink)
  | console => exact (congrArg m.console.Extends hconsole).mpr (.refl m.console)

/-- An action takes away nothing that a sink took, and does not change what it does. -/
def Action.ExtendsOutlets {α : Type} (x : Action α) : Prop := ∀ m : Machine, m.OutletsExtend (x m).2

/-- To print takes nothing away that a sink took. -/
theorem Action.extendsOutlets_print (o : Outlet) (bytes : List UInt8) :
    (print o bytes).ExtendsOutlets := by
  intro m
  obtain ⟨taken, result, -, hprint⟩ := print_finishes o bytes m
  have hend : (print o bytes m).2 = m.outputTo o taken := by
    rcases hr : print o bytes m with ⟨e | ⟨⟩, m'⟩
    · rw [bind_of_error _ hr] at hprint
      exact congrArg Prod.snd hprint
    · rw [bind_of_ok _ hr] at hprint
      exact congrArg Prod.snd hprint
  rw [hend]
  exact fun o' => m.extends_outputTo o' o taken

theorem Action.ExtendsOutlets.bind {α β : Type} {x : Action α} {f : α → Action β}
    (hx : x.ExtendsOutlets) (hf : ∀ a, (f a).ExtendsOutlets) : (x >>= f).ExtendsOutlets :=
  bind_leads (ρ := Machine.OutletsExtend) (fun h h' o => (h o).trans (h' o)) hx hf

theorem Primitive.extendsOutlets {α : Type} {x : Action α} (h : Primitive x) : x.ExtendsOutlets :=
  h.elimHost (R := Action.ExtendsOutlets) (fun _ => .of_eq rfl rfl) (fun _ => .of_eq rfl rfl)
    (fun c m => by
      rw [Action.configure_snd]
      exact .of_eq rfl rfl)
    Action.extendsOutlets_print (fun hx m => .of_eq (hx.sink_eq m) (hx.console_eq m))

/-- None of the actions of the machine takes anything away that a sink took. -/
theorem Atomic.extendsOutlets {α : Type} {x : Action α} (h : Atomic x) : x.ExtendsOutlets :=
  h.of_primitive (R := Action.ExtendsOutlets) Primitive.extendsOutlets .bind

/-- Nor does the conversion of values do so, whatever its handlers do. -/
theorem Program.outletsExtend_toTexts (P : Program) (fuel : Nat) (vs : List Value) (m : Machine) :
    m.OutletsExtend ((P.engine fuel).toTexts vs m).2 := by
  have F : FullCongruence (SameWhere m.OutletsExtend) :=
    fullCongruence_sameWhere fun h m' hm o => (hm o).trans (h.extendsOutlets m' o)
  have K : KeptByCalls (SameWhere m.OutletsExtend) :=
    keptByCalls_sameWhere fun {m'} k hm o => by
      have hdepth : m'.OutletsExtend { m' with depth := k } := .of_eq rfl rfl
      exact (hm o).trans (hdepth o)
  exact (F.toTameCongruence.toTexts (F.relatedAny K P fuel) vs m fun o => .refl _).2

/-- **Printing converts before it writes.**  All arguments are converted from left to right.  If a
conversion fails, then so does the printing: it ends with this error on the machine that the
conversion left, so no value behind is converted, and nothing is written.  Otherwise nothing but the
outlet changes after the conversions: behind what its sink has then, which is what it had before and
what handlers have printed, stands a part of the line from its front.  How large this part is, and
whether printing succeeds, is told by the sink; what the sink does, and whether it is held, is as it
was before the conversions. -/
theorem print_converts_first (P : Program) (fuel : Nat) (o : Outlet) (args : List Value)
    (m : Machine) :
    (∃ h m', (P.engine fuel).FailsToConvert args m h m' ∧
      Library.print (P.engine fuel) o args m = (.error h, m')) ∨
    ∃ texts m' taken result, (P.engine fuel).Converts args m texts m' ∧
      (Action.outlet o m).Extends (Action.outlet o m') ∧
      (Action.outlet o m').Finishes ([0x09].intercalate (texts.map Utf8.bytes) ++ [0x0A])
        taken result ∧
      Library.print (P.engine fuel) o args m = (result, m'.outputTo o taken) := by
  rcases (P.engine fuel).converts_or_fails args m with ⟨texts, m', hconverts⟩ | ⟨h, m', hfails⟩
  · have htexts := hconverts.toTexts_eq
    have hextends := P.outletsExtend_toTexts fuel args m o
    obtain ⟨taken, result, hfinishes, hprint⟩ :=
      Action.print_finishes o (Utf8.bytes (Library.line texts)) m'
    rw [htexts] at hextends
    rw [Library.bytes_line] at hfinishes
    refine .inr ⟨texts, m', taken, result, hconverts, hextends, hfinishes, ?_⟩
    exact (Action.bind_of_ok _ htexts).trans hprint
  · exact .inl ⟨h, m', hfails, Action.bind_of_error _ hfails.toTexts_eq⟩

/-- A program that prints a text and a table.  The table prints a line itself when it
is converted. -/
def printing : Program where
  prototypes := #[{
    body := [
      .mk (.op .call) [.one (.global ["print"]), .one (.string "inner")] .nowhere,
      .mk .returnOne [.one (.string "outer")] .nowhere] }]
  steps := [{
    step := .mk (.op .call)
      [.one (.global ["print"]), .one (.string "text"),
        .one (.table [] (.table [.mk (.string "__tostring") (.function "convert" 0)] .nil))]
      .nowhere }]

/-- There is room for all of the inner line, and for a part of the outer one. -/
example : (printing.run 4 (.opened (.limited 12) .wraps)).2.output = "inner\ntext\to" := by
  decide +kernel

end LuaKernel
