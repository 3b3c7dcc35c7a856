import LuaKernel.Operators
import LuaKernel.Proofs.Access.Reading
import LuaKernel.Proofs.Text.Sequences

/-!
# Order and its converse

`a <= b` should be the contrary of `b < a`.  For two numbers and for two strings it is, apart from
NaNs (`Binary64.lessEqual_eq_not_less`, `Utf8.lessEqual_eq_less_or_eq`).  For other values it
depends on handlers.  Without a handler of its own, `a <= b` looks for a handler as `b < a` does,
first with `b` and then with `a`, and calls it with the same arguments
(`Engine.lessEqual_of_handler`).  So whatever this call does, it is done by both.

If there is no handler at all, both fail at once.  Only these errors differ, since each names the
types of its own operands in their order (`Machine.incomparable`).
-/

namespace LuaKernel

/-! ### Numbers and strings -/

/-- Numbers are compared by their values, if no NaN is among them. -/
theorem Binary64.lessEqual_eq_not_less {x y : Binary64} (hx : x.isNaN = false)
    (hy : y.isNaN = false) : x.lessEqual y = !y.less x := by
  simp only [lessEqual, less, hx, hy, Bool.not_false, Bool.true_and, ← decide_not, Int.not_lt]

/-- Two strings with the same bytes are the same. -/
theorem Utf8.bytes_injective : Function.Injective Utf8.bytes :=
  Function.LeftInverse.injective Utf8.decodeString_bytes

/-- A string is not after another one, if and only if it is before it, or the same. -/
theorem Utf8.lessEqual_eq_less_or_eq (s t : String) :
    Utf8.lessEqual s t = (Utf8.less s t || decide (s = t)) := by
  have hiff : ¬bytes t < bytes s ↔ bytes s < bytes t ∨ s = t := by
    rw [← bytes_injective.eq_iff, List.not_lt, List.le_iff_lt_or_eq]
  simp only [lessEqual, less, ← decide_not, ← Bool.decide_or, hiff]

/-- Two numbers, or two strings: values that are compared without a handler. -/
def Value.RawOrdered (a b : Value) : Prop :=
  (∃ x y, a = .number x ∧ b = .number y) ∨ ∃ s t, a = .string s ∧ b = .string t

theorem Value.RawOrdered.symm {a b : Value} (h : a.RawOrdered b) : b.RawOrdered a := by
  rcases h with ⟨x, y, ha, hb⟩ | ⟨s, t, ha, hb⟩
  · exact .inl ⟨y, x, hb, ha⟩
  · exact .inr ⟨t, s, hb, ha⟩

/-! ### Handlers -/

theorem Heap.eitherMetafield_eq_nil_iff {h : Heap} {a b : Value} {field : Metafield} :
    h.eitherMetafield a b field = .nil ↔
      h.metafield a field = .nil ∧ h.metafield b field = .nil := by
  unfold eitherMetafield
  by_cases ha : h.metafield a field = .nil
  · simp [ha, Value.isNil]
  · simp [ha, Value.isNil_eq_false ha]

/-- How a comparison of two values ends that cannot be compared. -/
def Machine.incomparable (m : Machine) (a b : Value) : Except Halt Bool × Machine :=
  (.error (.error (.runtime (.string (
    if a.kind = b.kind then "attempt to compare two " ++ a.kind.name ++ " values"
    else "attempt to compare " ++ a.kind.name ++ " with " ++ b.kind.name)))), m)

namespace Engine

variable (E : Engine) {m : Machine} {a b : Value}

theorem less_of_not_rawOrdered (h : ¬a.RawOrdered b) :
    E.less a b = do
      let handler := (← Action.heap).eitherMetafield a b .less
      if handler.isNil then Action.fault (.incomparable a.kind b.kind)
      else return (← E.callOne handler [a, b]).isTruthy := by
  unfold less
  split
  · exact absurd (.inl ⟨_, _, rfl, rfl⟩) h
  · exact absurd (.inr ⟨_, _, rfl, rfl⟩) h
  · rfl

theorem lessEqual_of_not_rawOrdered (h : ¬a.RawOrdered b) :
    E.lessEqual a b = (do
      let heap ← Action.heap
      let handler := heap.eitherMetafield a b .lessEqual
      let contrary := heap.eitherMetafield b a .less
      if !handler.isNil then return (← E.callOne handler [a, b]).isTruthy
      else if !contrary.isNil then return !(← E.callOne contrary [b, a]).isTruthy
      else Action.fault (.incomparable a.kind b.kind)) := by
  unfold lessEqual
  split
  · exact absurd (.inl ⟨_, _, rfl, rfl⟩) h
  · exact absurd (.inr ⟨_, _, rfl, rfl⟩) h
  · rfl

/-- Without a handler, the values cannot be compared. -/
theorem less_of_nil (h : ¬a.RawOrdered b) (hless : m.heap.eitherMetafield a b .less = .nil) :
    E.less a b m = m.incomparable a b := by
  rw [E.less_of_not_rawOrdered h, Action.bind_of_ok _ (Action.heap_apply _), hless]
  rfl

/-- Without any handler, the values cannot be compared. -/
theorem lessEqual_of_nil (h : ¬a.RawOrdered b) (hle : m.heap.eitherMetafield a b .lessEqual = .nil)
    (hless : m.heap.eitherMetafield b a .less = .nil) : E.lessEqual a b m = m.incomparable a b := by
  rw [E.lessEqual_of_not_rawOrdered h, Action.bind_of_ok _ (Action.heap_apply _), hle, hless]
  rfl

/-- **The converse asks the same handler, in the same way.** -/
theorem lessEqual_of_handler (h : ¬a.RawOrdered b)
    (hle : m.heap.eitherMetafield a b .lessEqual = .nil)
    (hless : m.heap.eitherMetafield b a .less ≠ .nil) :
    E.lessEqual a b m = (do return !(← E.less b a)) m := by
  have hnil : Value.nil.isNil = true := rfl
  have hhandler := Value.isNil_eq_false hless
  rw [E.lessEqual_of_not_rawOrdered h, E.less_of_not_rawOrdered (mt Value.RawOrdered.symm h),
    bind_assoc, Action.bind_of_ok _ (Action.heap_apply _),
    Action.bind_of_ok _ (Action.heap_apply _), hle]
  simp only [hnil, hhandler, Bool.not_true, Bool.not_false, Bool.false_eq_true, if_false,
    if_true]
  rw [bind_assoc]
  rfl

/-- Numbers and strings need no handler. -/
theorem lessEqual_of_rawOrdered (h : a.RawOrdered b)
    (hnumbers : ∀ x y, a = .number x → b = .number y → x.isNaN = false ∧ y.isNaN = false) :
    ∃ c, E.less b a m = (.ok c, m) ∧ E.lessEqual a b m = (.ok !c, m) := by
  rcases h with ⟨x, y, rfl, rfl⟩ | ⟨s, t, rfl, rfl⟩
  · obtain ⟨hx, hy⟩ := hnumbers x y rfl rfl
    refine ⟨y.less x, rfl, ?_⟩
    rw [← Binary64.lessEqual_eq_not_less hx hy]
    rfl
  · exact ⟨Utf8.less t s, rfl, rfl⟩

end Engine

/-! ### All values -/

/-- **`a <= b` is the contrary of `b < a`.**  Let two values not be numbers with a NaN among them,
and let them be two numbers, or two strings, or have no handler for `<=`.  Then `a <= b` and `b < a`
leave the same machine, and they have contrary results, or both fail.  If they fail and one of the
values has a handler for `<`, then they fail with the same error.  If none has, then both leave the
machine as it is, whatever functions do, and fail with an error that can be caught, and names the
types of their own operands. -/
theorem lessEqual_contrary_less (E : Engine) (m : Machine) (a b : Value)
    (hnumbers : ∀ x y, a = .number x → b = .number y → x.isNaN = false ∧ y.isNaN = false)
    (hle : a.RawOrdered b ∨
      m.heap.metafield a .lessEqual = .nil ∧ m.heap.metafield b .lessEqual = .nil) :
    (E.lessEqual a b m).2 = (E.less b a m).2 ∧
    ((∃ c, (E.less b a m).1 = .ok c ∧ (E.lessEqual a b m).1 = .ok !c) ∨
      ∃ e e', (E.less b a m).1 = .error e ∧ (E.lessEqual a b m).1 = .error e' ∧
        (m.heap.metafield a .less ≠ .nil ∨ m.heap.metafield b .less ≠ .nil → e' = e) ∧
        (m.heap.metafield a .less = .nil ∧ m.heap.metafield b .less = .nil →
          E.less b a m = m.incomparable b a ∧ E.lessEqual a b m = m.incomparable a b)) := by
  by_cases hordered : a.RawOrdered b
  · obtain ⟨c, hless, hlessEqual⟩ := E.lessEqual_of_rawOrdered (m := m) hordered hnumbers
    rw [hless, hlessEqual]
    exact ⟨rfl, .inl ⟨c, rfl, rfl⟩⟩
  have hnone : m.heap.eitherMetafield a b .lessEqual = .nil :=
    Heap.eitherMetafield_eq_nil_iff.2 (hle.resolve_left hordered)
  by_cases hhandler : m.heap.eitherMetafield b a .less = .nil
  · obtain ⟨hb, ha⟩ := Heap.eitherMetafield_eq_nil_iff.1 hhandler
    have hless := E.less_of_nil (mt Value.RawOrdered.symm hordered) hhandler
    have hlessEqual := E.lessEqual_of_nil hordered hnone hhandler
    rw [hless, hlessEqual]
    refine ⟨rfl, .inr ⟨_, _, rfl, rfl, fun hsome => ?_, fun _ => ⟨rfl, rfl⟩⟩⟩
    exact hsome.elim (absurd ha) (absurd hb)
  · have hnot := E.lessEqual_of_handler hordered hnone hhandler
    rcases hless : E.less b a m with ⟨e | c, m'⟩
    · rw [hnot, Action.bind_of_error _ hless]
      refine ⟨rfl, .inr ⟨e, e, rfl, rfl, fun _ => rfl, fun hnil => absurd ?_ hhandler⟩⟩
      exact Heap.eitherMetafield_eq_nil_iff.2 hnil.symm
    · rw [hnot, Action.bind_of_ok _ hless]
      exact ⟨rfl, .inl ⟨c, rfl, rfl⟩⟩

/-- A machine with a table that has a handler for `<`, table `1`, and its metatable, table `2`. -/
def Machine.rivals : Machine where
  heap := ⟨#[Table.empty, Table.empty.setMetatable (some ⟨2⟩),
    Table.ofHistory [.set (.string "__lt") (.function ⟨⟨0⟩, "before", .builtin .type⟩)]]⟩
  config := some .standard

/-- An engine whose functions keep their first argument, and say yes. -/
def Engine.assenting : Engine where
  apply := fun _ _ args => do
    Action.setRegister "asked" (argument args 0)
    return .single (.boolean true)
  probes := 0

/-- The handler is asked about the second operand of `<=`, and what it says is turned around; and
where there is no handler, the operands are named in their order. -/
theorem rivals_compared :
    Engine.assenting.lessEqual (.boolean true) (.table ⟨1⟩) .rivals =
      (.ok false, { Machine.rivals with registers := Assoc.empty.insert "asked" (.table ⟨1⟩) }) ∧
    Engine.assenting.lessEqual (.boolean true) (.table ⟨2⟩) .rivals =
      (.error (.error (.runtime (.string "attempt to compare boolean with table"))), .rivals) := by
  constructor
  · have hless : Engine.assenting.less (.table ⟨1⟩) (.boolean true) .rivals =
        (.ok true,
          { Machine.rivals with registers := Assoc.empty.insert "asked" (.table ⟨1⟩) }) := rfl
    obtain ⟨hsame, hends⟩ := lessEqual_contrary_less .assenting .rivals (.boolean true) (.table ⟨1⟩)
      (fun x y h => Value.noConfusion h) (.inr ⟨by decide, by decide⟩)
    rw [hless] at hsame hends
    rcases hends with ⟨c, hc, hnot⟩ | ⟨e, e', he, -⟩
    · obtain rfl := Except.ok.inj hc
      exact Prod.ext hnot hsame
    · cases he
  · obtain ⟨-, hends⟩ := lessEqual_contrary_less .assenting .rivals (.boolean true) (.table ⟨2⟩)
      (fun x y h => Value.noConfusion h) (.inr ⟨by decide, by decide⟩)
    have hless : Engine.assenting.less (.table ⟨2⟩) (.boolean true) .rivals =
        Machine.rivals.incomparable (.table ⟨2⟩) (.boolean true) := rfl
    rw [hless] at hends
    rcases hends with ⟨c, hc, -⟩ | ⟨e, e', -, -, -, hnone⟩
    · cases hc
    · exact (hnone ⟨by decide, by decide⟩).2

end LuaKernel
