import LuaKernel.Proofs.Access.Reading
import Mathlib.Data.ENat.Lattice
import Mathlib.Order.CompletePartialOrder

/-!
# How many hops an access may make

An access that goes from table to table makes hops (`Heap.Hops`), and how many it makes before a
table settles it is a number, or infinity where it never ends (`Heap.hops`).  The limit of an access
counts receivers, and the first receiver is there before the first hop.  So an access fails because
its chain is too long when the limit is at most the number of its hops
(`chainTooLong_iff_limit_le_hops`): as many hops as the limit are one too many, and with the limit
zero every access fails.

Reads and writes walk alike as long as they go from table to table, and `Heap.long_iff_hops` is
about both.
-/

namespace LuaKernel

namespace Heap

/-! ### Hops -/

/-- From a table, an access makes so many hops and is at a table. -/
inductive Hops (h : Heap) (field : Metafield) (key : Value) : TableId → Nat → TableId → Prop where
  | zero (t : TableId) : Hops h field key t 0 t
  | succ {t u w : TableId} {n : Nat} (hp : h.Passes field key (.table t) (.table u))
      (hr : Hops h field key u n w) : Hops h field key t (n + 1) w

/-- How many hops an access makes from a table until one of the tables settles it: one that has an
entry, or no handler, or a function for a handler.  It is infinite if none does. -/
noncomputable def hops (h : Heap) (field : Metafield) (key : Value) (t : TableId) : ℕ∞ :=
  ⨆ n ∈ {n : ℕ | ∃ u, h.Hops field key t n u}, (n : ℕ∞)

/-- Every handler that an access follows from a table is a table. -/
def FollowsTables (h : Heap) (field : Metafield) (key : Value) (t : TableId) : Prop :=
  ∀ n u w, h.Hops field key t n u → h.Passes field key (.table u) w → w.isTable = true

variable {h : Heap} {field : Metafield} {key : Value} {t u : TableId} {n : Nat}

/-- A walk that can be made can be broken off earlier. -/
theorem Hops.mono (hr : h.Hops field key t n u) {k : Nat} (hk : k ≤ n) :
    ∃ w, h.Hops field key t k w := by
  induction hr generalizing k with
  | zero t => exact ⟨t, Nat.le_zero.1 hk ▸ .zero t⟩
  | @succ t _ _ _ hp _ ih =>
      cases k with
      | zero => exact ⟨t, .zero t⟩
      | succ k =>
          obtain ⟨w, hw⟩ := ih (Nat.le_of_succ_le_succ hk)
          exact ⟨w, .succ hp hw⟩

/-- There are at least so many hops if so many lead somewhere. -/
theorem natCast_le_hops_iff (limit : ℕ) :
    (limit : ℕ∞) ≤ h.hops field key t ↔ ∃ u, h.Hops field key t limit u := by
  constructor
  · intro hle
    by_contra hno
    -- All walks are then shorter, and so is the longest.
    have hshort : ∀ n ∈ {n : ℕ | ∃ u, h.Hops field key t n u}, n < limit := by
      rintro n ⟨u, hu⟩
      exact Nat.lt_of_not_le fun hn => hno (hu.mono hn)
    cases limit with
    | zero => exact hno ⟨t, .zero t⟩
    | succ limit =>
        have hsup : h.hops field key t ≤ (limit : ℕ∞) :=
          iSup₂_le fun n hn => Nat.cast_le.2 (Nat.le_of_lt_succ (hshort n hn))
        exact Nat.not_succ_le_self limit (Nat.cast_le.1 (hle.trans hsup))
  · rintro ⟨u, hu⟩
    exact le_iSup₂ (f := fun (n : ℕ) (_ : n ∈ {n : ℕ | ∃ u, h.Hops field key t n u}) => (n : ℕ∞))
      limit ⟨u, hu⟩

/-- A receiver passes a key on to one value only. -/
theorem Passes.unique {v w w' : Value} (hp : h.Passes field key v w)
    (hp' : h.Passes field key v w') : w = w' := hp.2.1.symm.trans hp'.2.1

/-- The hops of two chains add up. -/
theorem Hops.trans {w : TableId} {k : Nat} (hr : h.Hops field key t n u)
    (hr' : h.Hops field key u k w) : h.Hops field key t (k + n) w := by
  induction hr with
  | zero t => exact hr'
  | succ hp _ ih => exact .succ hp (ih hr')

theorem exists_hops_of_transGen {w : TableId}
    (hw : Relation.TransGen (fun a b => h.Passes field key (.table a) (.table b)) u w) :
    ∃ k, h.Hops field key u (k + 1) w := by
  induction hw with
  | single hp => exact ⟨0, .succ hp (.zero _)⟩
  | tail _ hp ih =>
      obtain ⟨k, hk⟩ := ih
      exact ⟨0 + 1 + k, hk.trans (.succ hp (.zero _))⟩

/-- An access that comes back to a table makes infinitely many hops. -/
theorem hops_eq_top_of_loop (hr : h.Hops field key t n u)
    (hloop : Relation.TransGen (fun a b => h.Passes field key (.table a) (.table b)) u u) :
    h.hops field key t = ⊤ := by
  obtain ⟨k, hk⟩ := exists_hops_of_transGen hloop
  -- One more round makes more hops than any number that was reached so far.
  have hround : ∀ j, ∃ i, j ≤ i ∧ h.Hops field key t i u := by
    intro j
    induction j with
    | zero => exact ⟨n, Nat.zero_le n, hr⟩
    | succ j ih =>
        obtain ⟨i, hi, hri⟩ := ih
        exact ⟨k + 1 + i, by omega, hri.trans hk⟩
  refine ENat.eq_top_iff_forall_ge.2 fun j => (natCast_le_hops_iff j).2 ?_
  obtain ⟨i, hi, hri⟩ := hround j
  exact hri.mono hi

/-! ### Walks that are too long -/

/-- Walks of one kind are too long for a limit when they make as many hops: if every walk is too
long for the limit zero, a hop takes one off the limit, and where there is no hop no other walk is
too long. -/
theorem long_iff_hops (long : Nat → Value → Prop) (hzero : ∀ t, long 0 (.table t))
    (hpass : ∀ limit t w, h.Passes field key (.table t) w →
      (long (limit + 1) (.table t) ↔ long limit w))
    (hstop : ∀ limit t, (∀ w, ¬ h.Passes field key (.table t) w) → ¬ long (limit + 1) (.table t))
    (hall : h.FollowsTables field key t) (limit : Nat) :
    long limit (.table t) ↔ ∃ u, h.Hops field key t limit u := by
  induction limit generalizing t with
  | zero => exact ⟨fun _ => ⟨t, .zero t⟩, fun _ => hzero t⟩
  | succ limit ih =>
      by_cases hhop : ∃ w, h.Passes field key (.table t) w
      · obtain ⟨w, hp⟩ := hhop
        have hw := hall 0 t w (.zero t) hp
        cases w with
        | table u =>
            have hnext : h.FollowsTables field key u :=
              fun n u' w hr => hall (n + 1) u' w (.succ hp hr)
            rw [hpass limit t _ hp, ih hnext]
            constructor
            · rintro ⟨u', hr⟩
              exact ⟨u', .succ hp hr⟩
            · rintro ⟨u', hr⟩
              cases hr with
              | succ hp' hr' =>
                  cases hp.unique hp'
                  exact ⟨u', hr'⟩
        | nil | boolean _ | number _ | string _ | function _ => cases hw
      · have hno : ∀ w, ¬ h.Passes field key (.table t) w := fun w hp => hhop ⟨w, hp⟩
        refine iff_of_false (hstop limit t hno) ?_
        rintro ⟨u, hr⟩
        cases hr with
        | succ hp _ => exact hno _ hp

/-- Over tables, a walk that reads is too long if as many hops as it has turns lead somewhere. -/
theorem findIndex_eq_tooLong_iff (hall : h.FollowsTables .index key t) (limit : Nat) :
    h.findIndex key limit (.table t) = .tooLong ↔ ∃ u, h.Hops .index key t limit u := by
  refine long_iff_hops (fun limit v => h.findIndex key limit v = .tooLong) (fun _ => rfl)
    (fun limit t w hp => by rw [hp.findIndex_eq]) (fun limit t hno => ?_) hall limit
  by_cases he : h.rawEntry (.table t) key = .nil
  · rw [findIndex_of_absent he]
    cases hf : h.metafield (.table t) .index with
    | nil | function _ => exact IndexResult.noConfusion
    | boolean _ | number _ | string _ | table _ =>
        exact absurd ⟨he, hf, Value.noConfusion, fun _ => Value.noConfusion⟩ (hno _)
  · rw [findIndex_of_entry he]
    exact IndexResult.noConfusion

/-! One visit of a write, by what there is at the table. -/

/-- A walk that writes ends at the first table with an entry. -/
theorem findNewIndex_of_entry (he : (h.get t).rawGet key ≠ .nil) (limit : Nat) :
    h.findNewIndex key (limit + 1) (.table t) = .table t := by
  simp only [findNewIndex, Value.isNil_eq_false he, Bool.not_false, if_true]

/-- Without an entry, the handler of the table decides how a walk that writes goes on. -/
theorem findNewIndex_of_absent (he : (h.get t).rawGet key = .nil) (limit : Nat) :
    h.findNewIndex key (limit + 1) (.table t) =
      match h.metafield (.table t) .newIndex with
      | .nil => .table t
      | .function f => .handler f (.table t)
      | next => h.findNewIndex key limit next := by
  have hnil : ¬ (!((h.get t).rawGet key).isNil) = true := by rw [he]; exact Bool.false_ne_true
  exact if_neg hnil

/-- A walk that writes goes on with the handler of its table, and has one turn less. -/
theorem Passes.findNewIndex_eq {w : Value} (hp : h.Passes .newIndex key (.table t) w)
    (limit : Nat) : h.findNewIndex key (limit + 1) (.table t) = h.findNewIndex key limit w := by
  obtain ⟨he, rfl, hnil, hfun⟩ := hp
  rw [findNewIndex_of_absent he]
  cases hf : h.metafield (.table t) .newIndex with
  | nil => exact absurd hf hnil
  | function f => exact absurd hf (hfun f)
  | boolean _ | number _ | string _ | table _ => rfl

/-- Over tables, a walk that writes is too long if as many hops as it has turns lead somewhere. -/
theorem findNewIndex_eq_tooLong_iff (hall : h.FollowsTables .newIndex key t) (limit : Nat) :
    h.findNewIndex key limit (.table t) = .tooLong ↔ ∃ u, h.Hops .newIndex key t limit u := by
  refine long_iff_hops (fun limit v => h.findNewIndex key limit v = .tooLong) (fun _ => rfl)
    (fun limit t w hp => by rw [hp.findNewIndex_eq]) (fun limit t hno => ?_) hall limit
  by_cases he : (h.get t).rawGet key = .nil
  · rw [findNewIndex_of_absent he]
    cases hf : h.metafield (.table t) .newIndex with
    | nil | function _ => exact NewIndexResult.noConfusion
    | boolean _ | number _ | string _ | table _ =>
        exact absurd ⟨he, hf, Value.noConfusion, fun _ => Value.noConfusion⟩ (hno _)
  · rw [findNewIndex_of_entry he]
    exact NewIndexResult.noConfusion

end Heap

/-! ### Accesses of a run -/

/-- A read fails by itself, because its chain is too long: it fails whatever functions do. -/
def Machine.ReadTooLong (m : Machine) (t : TableId) (key : Value) : Prop :=
  ∀ E : Engine, E.getIndex (.table t) key m = m.chainTooLong .index

/-- A write fails by itself, because its chain is too long: it fails whatever functions do. -/
def Machine.WriteTooLong (m : Machine) (t : TableId) (key v : Value) : Prop :=
  ∀ E : Engine, E.setIndex (.table t) key v m = m.chainTooLong .newIndex

namespace Machine

variable {α : Type} {m m' : Machine} {field : Metafield}

/-- A result is not the failure of a chain that is too long. -/
theorem ok_ne_chainTooLong {a : α} :
    ((.ok a, m') : Except Halt α × Machine) ≠ m.chainTooLong field := by
  intro heq
  cases congrArg Prod.fst heq

/-- Nor is the error of another fault. -/
theorem fault_ne_chainTooLong (fault : Fault)
    (h : fault.message ≠ "'" ++ field.key ++ "' chain too long; possible loop") :
    ((.error (.error (.ofFault fault)), m') : Except Halt α × Machine) ≠ m.chainTooLong field := by
  intro heq
  injection congrArg Prod.fst heq with herror
  injection herror with herror
  injection herror with hpayload
  injection hpayload with htext
  exact h htext

end Machine

/-- A call of a function that does nothing fails for its depth, or not at all. -/
theorem Engine.idle_invoke_cases (f : Closure) (args : List Value) (m : Machine) :
    idle.invoke .called (.function f) args m =
      (.error (.error (.ofFault .stackOverflow)), m.overflowed) ∨
    ∃ m', idle.invoke .called (.function f) args m = (.ok .none, m') := by
  rcases Nat.lt_or_ge m.depth m.limits.maxCallDepth with hlt | hge
  · exact .inr ⟨_, idle.invoke_of_lt hlt .called (.function f) args⟩
  · exact .inl (idle.invoke_of_deepest hge .called (.function f) args)

/-- A raw write succeeds, or fails because of its key. -/
theorem Action.rawSet_cases (t : TableId) (key v : Value) (m : Machine) :
    (∃ m', Action.rawSet t key v m = (.ok (), m')) ∨
    Action.rawSet t key v m = (.error (.error (.ofFault .keyIsNil)), m) ∨
    Action.rawSet t key v m = (.error (.error (.ofFault .keyIsNaN)), m) := by
  simp only [Action.rawSet, Bind.bind, Action.table, Table.rawSet]
  cases key.key? with
  | some k => exact .inl ⟨_, rfl⟩
  | none =>
      refine .inr ?_
      cases key.isNil with
      | true => exact .inl rfl
      | false => exact .inr rfl

/-- Whether a read raises for its length is told by its walk alone, not by functions. -/
theorem Machine.readTooLong_iff {m : Machine} {t : TableId} {key : Value} :
    m.ReadTooLong t key ↔ m.heap.findIndex key m.limits.maxMetaChain (.table t) = .tooLong := by
  refine ⟨fun hall => ?_, fun hlong E => E.getIndex_of_tooLong hlong⟩
  rcases m.heap.findIndex_eq_tooLong_or_reads key m.limits.maxMetaChain (.table t) with
    hlong | ⟨n, r, hr, hn⟩
  · exact hlong
  · have hend := (Engine.idle.getIndex_of_reads hr hn).symm.trans (hall Engine.idle)
    cases r with
    | gives v => exact absurd hend ok_ne_chainTooLong
    | refuses v =>
        refine absurd hend (fault_ne_chainTooLong (.notIndexable v.kind) ?_)
        cases v.kind <;> decide
    | calls f v =>
        rcases Engine.idle_invoke_cases f [v, key]
            (m.configured.noting (.callingHandler .index key)) with hdeep | ⟨m', hok⟩
        · refine absurd ((Action.bind_of_error _ hdeep).symm.trans hend)
            (fault_ne_chainTooLong _ ?_)
          decide
        · exact absurd ((Action.bind_of_ok _ hok).symm.trans hend) ok_ne_chainTooLong

namespace Engine

variable (E : Engine) {m : Machine} {receiver key v : Value}

/-- A write asks for the configuration, walks, and carries out what the walk found. -/
theorem setIndex_apply : E.setIndex receiver key v m =
    (match m.heap.findNewIndex key m.limits.maxMetaChain receiver with
      | .table t => Action.rawSet t key v
      | .refused r => Action.fault (.notIndexable r.kind)
      | .handler f r => do
        Action.notice (.callingHandler .newIndex key)
        E.callNone (.function f) [r, key, v]
      | .tooLong => do
        Action.notice (.chainExceeded .newIndex m.limits.maxMetaChain)
        Action.fault (.chainTooLong .newIndex) : Action Unit) m.configured := rfl

end Engine

/-- Whether a write raises for its length is told by its walk alone, not by functions. -/
theorem Machine.writeTooLong_iff {m : Machine} {t : TableId} {key v : Value} :
    m.WriteTooLong t key v ↔
      m.heap.findNewIndex key m.limits.maxMetaChain (.table t) = .tooLong := by
  constructor
  · intro hall
    have hend := Engine.idle.setIndex_apply.symm.trans (hall Engine.idle)
    cases hfound : m.heap.findNewIndex key m.limits.maxMetaChain (.table t) with
    | tooLong => rfl
    | table u =>
        rw [hfound] at hend
        rcases Action.rawSet_cases u key v m.configured with ⟨m', hok⟩ | hnil | hnan
        · exact absurd (hok.symm.trans hend) ok_ne_chainTooLong
        · exact absurd (hnil.symm.trans hend) (fault_ne_chainTooLong _ (by decide))
        · exact absurd (hnan.symm.trans hend) (fault_ne_chainTooLong _ (by decide))
    | refused r =>
        rw [hfound] at hend
        refine absurd hend (fault_ne_chainTooLong (.notIndexable r.kind) ?_)
        cases r.kind <;> decide
    | handler f r =>
        rw [hfound] at hend
        rcases Engine.idle_invoke_cases f [r, key, v]
          (m.configured.noting (.callingHandler .newIndex key)) with hdeep | ⟨m', hok⟩
        · refine absurd ((Action.bind_of_error _ hdeep).symm.trans hend)
            (fault_ne_chainTooLong _ ?_)
          decide
        · exact absurd ((Action.bind_of_ok _ hok).symm.trans hend) ok_ne_chainTooLong
  · intro hlong E
    rw [E.setIndex_apply, hlong]
    rfl

/-- What fails from the limit on agrees with what should fail beyond it, except at the limit. -/
theorem beyond_iff_ne_of_iff_le {long : Prop} {limit hops : ℕ∞} (h : long ↔ limit ≤ hops) :
    (long ↔ limit < hops) ↔ hops ≠ limit := by
  rw [h]
  constructor
  · intro hbeyond heq
    exact (hbeyond.1 heq.ge).ne' heq
  · intro hne
    exact ⟨fun hle => lt_of_le_of_ne hle hne.symm, le_of_lt⟩

/-- **A chain is too long when it has as many hops as the limit.**  Where all handlers that a read
or a write from a table follows are tables, the access fails by itself, because its chain is too
long, exactly when the limit is at most the number of its hops.  So a limit that lets as many hops
pass is kept by all accesses but those that make exactly as many.  An access that comes back to a
table makes infinitely many. -/
theorem chainTooLong_iff_limit_le_hops (m : Machine) (t : TableId) (key v : Value) :
    (m.heap.FollowsTables .index key t →
      (m.ReadTooLong t key ↔ (m.limits.maxMetaChain : ℕ∞) ≤ m.heap.hops .index key t) ∧
      ((m.ReadTooLong t key ↔ (m.limits.maxMetaChain : ℕ∞) < m.heap.hops .index key t) ↔
        m.heap.hops .index key t ≠ m.limits.maxMetaChain)) ∧
    (m.heap.FollowsTables .newIndex key t →
      (m.WriteTooLong t key v ↔ (m.limits.maxMetaChain : ℕ∞) ≤ m.heap.hops .newIndex key t) ∧
      ((m.WriteTooLong t key v ↔ (m.limits.maxMetaChain : ℕ∞) < m.heap.hops .newIndex key t) ↔
        m.heap.hops .newIndex key t ≠ m.limits.maxMetaChain)) ∧
    ∀ field n u, m.heap.Hops field key t n u →
      Relation.TransGen (fun a b => m.heap.Passes field key (.table a) (.table b)) u u →
      m.heap.hops field key t = ⊤ := by
  refine ⟨fun hall => ?_, fun hall => ?_, fun field n u => Heap.hops_eq_top_of_loop⟩
  · have hread : m.ReadTooLong t key ↔ (m.limits.maxMetaChain : ℕ∞) ≤ m.heap.hops .index key t := by
      rw [Machine.readTooLong_iff, Heap.findIndex_eq_tooLong_iff hall, Heap.natCast_le_hops_iff]
    exact ⟨hread, beyond_iff_ne_of_iff_le hread⟩
  · have hwrite : m.WriteTooLong t key v ↔
        (m.limits.maxMetaChain : ℕ∞) ≤ m.heap.hops .newIndex key t := by
      rw [Machine.writeTooLong_iff, Heap.findNewIndex_eq_tooLong_iff hall, Heap.natCast_le_hops_iff]
    exact ⟨hwrite, beyond_iff_ne_of_iff_le hwrite⟩

/-! ### One hop -/

/-- In the heap of a table that reads from another one, a read makes one hop and no more. -/
theorem Heap.hops_proxied_cases {n : Nat} {u : TableId}
    (hr : Heap.proxied.Hops .index (.string "x") ⟨1⟩ n u) : n = 0 ∧ u = ⟨1⟩ ∨ n = 1 ∧ u = ⟨3⟩ := by
  cases hr with
  | zero => exact .inl ⟨rfl, rfl⟩
  | succ hp hr' =>
      cases (hp.unique Heap.passes_proxied)
      cases hr' with
      | zero => exact .inr ⟨rfl, rfl⟩
      | succ hp' _ => exact absurd hp'.1 (by decide)

theorem Heap.followsTables_proxied : Heap.proxied.FollowsTables .index (.string "x") ⟨1⟩ := by
  intro n u w hr hp
  rcases Heap.hops_proxied_cases hr with ⟨-, rfl⟩ | ⟨-, rfl⟩
  · cases hp.unique Heap.passes_proxied
    rfl
  · exact absurd hp.1 (by decide)

theorem Heap.hops_proxied : Heap.proxied.hops .index (.string "x") ⟨1⟩ = 1 := by
  have hone : ((1 : ℕ) : ℕ∞) ≤ Heap.proxied.hops .index (.string "x") ⟨1⟩ :=
    (Heap.natCast_le_hops_iff 1).2 ⟨⟨3⟩, .succ Heap.passes_proxied (.zero _)⟩
  refine le_antisymm (iSup₂_le ?_) hone
  rintro n ⟨u, hr⟩
  rcases Heap.hops_proxied_cases hr with ⟨rfl, -⟩ | ⟨rfl, -⟩
  · exact Nat.cast_le.2 (Nat.zero_le 1)
  · exact le_refl _

/-- The chain has one hop and two receivers, so a limit of two is enough for it. -/
theorem two_receivers_suffice :
    Heap.proxied.FollowsTables .index (.string "x") ⟨1⟩ ∧
    ¬ (Machine.proxied 2).ReadTooLong ⟨1⟩ (.string "x") := by
  refine ⟨Heap.followsTables_proxied, fun hlong => ?_⟩
  have hle := (((chainTooLong_iff_limit_le_hops (.proxied 2) ⟨1⟩ (.string "x") .nil).1
    Heap.followsTables_proxied).1).1 hlong
  rw [show (Machine.proxied 2).heap = Heap.proxied from rfl, Heap.hops_proxied] at hle
  exact absurd (Nat.cast_le.1 hle) (by decide)

/-- The one hop is as many as the limit one allows, and yet too many. -/
theorem one_hop_exceeds_limit_one :
    Heap.proxied.FollowsTables .index (.string "x") ⟨1⟩ ∧
    Heap.proxied.hops .index (.string "x") ⟨1⟩ = 1 ∧
    (Machine.proxied 1).limits.maxMetaChain = 1 ∧
    ¬ ((Machine.proxied 1).ReadTooLong ⟨1⟩ (.string "x") ↔
      ((Machine.proxied 1).limits.maxMetaChain : ℕ∞) <
        Heap.proxied.hops .index (.string "x") ⟨1⟩) := by
  refine ⟨Heap.followsTables_proxied, Heap.hops_proxied, rfl, fun hiff => ?_⟩
  have hlong : (Machine.proxied 1).ReadTooLong ⟨1⟩ (.string "x") :=
    Machine.readTooLong_iff.2 (Heap.passes_proxied.findIndex_eq 0)
  have hlt := hiff.1 hlong
  rw [Heap.hops_proxied] at hlt
  exact absurd (Nat.cast_lt.1 hlt) (by decide)

end LuaKernel
