import LuaKernel.Proofs.Run.Depth
import Mathlib.Logic.Relation

/-!
# Reading with metatables

What `receiver[key]` means, said by recursion on receivers and without a bound (`Heap.Reads`): a
table with an entry gives it; without a handler a table gives nil, and another receiver is refused;
a handler that is a function is called; any other handler is read in place of the receiver.  The
relation also counts the receivers.  It need not hold of anything: where the chain of handlers has a
loop, it does not.

Reading with a limit is this recursion, cut off (`getIndex_refines_reads`).  If it ends and visits
no more receivers than the limit, a read gives what it says; in all other cases a read fails.  The
bridge is one equation about the walk (`Heap.Reads.findIndex_eq`): it is by induction on the
relation, so it does not matter whether the heap has loops.  What a loop excludes is the relation
itself: going from one receiver to the next takes one off its count (`Heap.Reads.of_passes`).
-/

namespace LuaKernel

/-! ### Reading without a limit -/

/-- What a read comes to. -/
inductive Reading where
  /-- A value. -/
  | gives (v : Value)
  /-- A receiver that cannot be indexed. -/
  | refuses (receiver : Value)
  /-- A call of a function, for a receiver. -/
  | calls (f : Closure) (receiver : Value)

namespace Heap

/-- An access passes from a receiver to another one: the receiver has no entry, and its handler is
neither nil nor a function. -/
def Passes (h : Heap) (field : Metafield) (key v w : Value) : Prop :=
  h.rawEntry v key = .nil ∧ h.metafield v field = w ∧ w ≠ .nil ∧ ∀ f, w ≠ .function f

/-- Reading `key` from a receiver visits so many receivers, and comes to something. -/
inductive Reads (h : Heap) (key : Value) :
    (receiver : Value) → (visits : Nat) → Reading → Prop where
  /-- A table with an entry gives it. -/
  | entry {t : TableId} (he : (h.get t).rawGet key ≠ .nil) :
      Reads h key (.table t) 1 (.gives ((h.get t).rawGet key))
  /-- A table without an entry and without a handler gives nil. -/
  | absent {t : TableId} (he : (h.get t).rawGet key = .nil)
      (hn : h.metafield (.table t) .index = .nil) : Reads h key (.table t) 1 (.gives .nil)
  /-- A receiver that is no table, and has no handler, is refused. -/
  | refused {v : Value} (ht : v.isTable = false) (hn : h.metafield v .index = .nil) :
      Reads h key v 1 (.refuses v)
  /-- A function is called, for the receiver whose handler it is. -/
  | handler {v : Value} {f : Closure} (he : h.rawEntry v key = .nil)
      (hf : h.metafield v .index = .function f) : Reads h key v 1 (.calls f v)
  /-- Any other handler is read in place of the receiver. -/
  | next {v w : Value} {n : Nat} {r : Reading} (hp : h.Passes .index key v w)
      (hr : Reads h key w n r) : Reads h key v (n + 1) r

end Heap

/-! ### What the walk finds -/

/-- The end of a walk that a reading is. -/
def Reading.found : Reading → IndexResult
  | .gives v => .value v
  | .refuses v => .refused v
  | .calls f v => .handler f v

theorem Value.isNil_eq_false {v : Value} (hv : v ≠ .nil) : v.isNil = false := by
  cases v with
  | nil => exact absurd rfl hv
  | boolean _ | number _ | string _ | table _ | function _ => rfl

namespace Heap

variable {h : Heap} {key v w : Value} {n : Nat} {r : Reading}

/-- What is not a table has no entries. -/
theorem rawEntry_of_not_isTable (ht : v.isTable = false) : h.rawEntry v key = .nil := by
  cases v with
  | table t => cases ht
  | nil | boolean _ | number _ | string _ | function _ => rfl

/-! One visit, by what there is at the receiver. -/

/-- A walk ends at the first table with an entry. -/
theorem findIndex_of_entry (he : h.rawEntry v key ≠ .nil) (limit : Nat) :
    h.findIndex key (limit + 1) v = .value (h.rawEntry v key) := by
  simp only [findIndex, Value.isNil_eq_false he, Bool.not_false, if_true]

/-- Without an entry, the handler of the receiver decides how a walk goes on. -/
theorem findIndex_of_absent (he : h.rawEntry v key = .nil) (limit : Nat) :
    h.findIndex key (limit + 1) v =
      match h.metafield v .index with
      | .nil => if v.isTable then .value .nil else .refused v
      | .function f => .handler f v
      | next => h.findIndex key limit next := by
  have hnil : ¬ (!(h.rawEntry v key).isNil) = true := by rw [he]; exact Bool.false_ne_true
  exact if_neg hnil

/-- A walk goes on with the handler that stands in for its receiver, and has one turn less. -/
theorem Passes.findIndex_eq (hp : h.Passes .index key v w) (limit : Nat) :
    h.findIndex key (limit + 1) v = h.findIndex key limit w := by
  obtain ⟨he, rfl, hnil, hfun⟩ := hp
  rw [findIndex_of_absent he]
  cases hf : h.metafield v .index with
  | nil => exact absurd hf hnil
  | function f => exact absurd hf (hfun f)
  | boolean _ | number _ | string _ | table _ => rfl

/-- **The walk is the recursion, cut off.**  It finds what reading comes to if it may visit so many
receivers, and nothing if it may not. -/
theorem Reads.findIndex_eq (hr : h.Reads key v n r) (limit : Nat) :
    h.findIndex key limit v = if n ≤ limit then r.found else .tooLong := by
  induction hr generalizing limit with
  | entry he =>
      cases limit with
      | zero => rfl
      | succ limit => exact findIndex_of_entry (v := .table _) he limit
  | absent he hn =>
      cases limit with
      | zero => rfl
      | succ limit =>
          rw [findIndex_of_absent (v := .table _) he, hn]
          rfl
  | refused ht hn =>
      cases limit with
      | zero => rfl
      | succ limit =>
          rw [findIndex_of_absent (rawEntry_of_not_isTable ht), hn]
          simp only [ht, Bool.false_eq_true, if_false]
          rfl
  | handler he hf =>
      cases limit with
      | zero => rfl
      | succ limit =>
          rw [findIndex_of_absent he, hf]
          rfl
  | next hp _ ih =>
      cases limit with
      | zero => rfl
      | succ limit =>
          rw [hp.findIndex_eq, ih limit]
          simp only [Nat.add_le_add_iff_right]

/-- A walk that finds something finds what reading comes to. -/
theorem findIndex_eq_tooLong_or_reads (h : Heap) (key : Value) (limit : Nat) (v : Value) :
    h.findIndex key limit v = .tooLong ∨ ∃ n r, h.Reads key v n r ∧ n ≤ limit := by
  induction limit generalizing v with
  | zero => exact .inl rfl
  | succ limit ih =>
      by_cases he : h.rawEntry v key = .nil
      · -- Without an entry, the handler says which rule it is.
        cases hf : h.metafield v .index with
        | nil =>
            refine .inr ⟨1, ?_⟩
            cases v with
            | table t => exact ⟨_, .absent he hf, Nat.succ_pos limit⟩
            | nil | boolean _ | number _ | string _ | function _ =>
                exact ⟨_, .refused rfl hf, Nat.succ_pos limit⟩
        | function f => exact .inr ⟨1, _, .handler he hf, Nat.succ_pos limit⟩
        | boolean _ | number _ | string _ | table _ =>
            have hp : h.Passes .index key v _ :=
              ⟨he, hf, Value.noConfusion, fun _ => Value.noConfusion⟩
            rcases ih _ with hlong | ⟨n, r, hr, hn⟩
            · exact .inl ((hp.findIndex_eq limit).trans hlong)
            · exact .inr ⟨n + 1, r, .next hp hr, Nat.succ_le_succ hn⟩
      · refine .inr ⟨1, ?_⟩
        cases v with
        | table t => exact ⟨_, .entry he, Nat.succ_pos limit⟩
        | nil | boolean _ | number _ | string _ | function _ => exact absurd rfl he

/-! ### The recursion as a function -/

/-- What a walk finds tells what the read comes to. -/
theorem Reading.found_injective {r r' : Reading} (hf : r.found = r'.found) : r = r' := by
  cases r <;> cases r' <;> cases hf <;> rfl

theorem Reading.found_ne_tooLong (r : Reading) : r.found ≠ .tooLong := by
  cases r <;> exact IndexResult.noConfusion

/-- Reading comes to one thing only, over one number of receivers. -/
theorem Reads.unique {n' : Nat} {r' : Reading} (hr : h.Reads key v n r)
    (hr' : h.Reads key v n' r') : n = n' ∧ r = r' := by
  -- Were the numbers different, one walk would both find something and be too long.
  have hle : ∀ {n n' r r'}, h.Reads key v n r → h.Reads key v n' r' → n' ≤ n := by
    intro n n' r r' hr hr'
    refine Nat.le_of_not_lt fun hlt => Reading.found_ne_tooLong r ?_
    have heq := (hr.findIndex_eq n).symm.trans (hr'.findIndex_eq n)
    rwa [if_pos (Nat.le_refl n), if_neg (Nat.not_le.2 hlt)] at heq
  obtain rfl : n = n' := Nat.le_antisymm (hle hr' hr) (hle hr hr')
  have heq := (hr.findIndex_eq n).symm.trans (hr'.findIndex_eq n)
  rw [if_pos (Nat.le_refl n), if_pos (Nat.le_refl n)] at heq
  exact ⟨rfl, Reading.found_injective heq⟩

/-- What follows a receiver is read over one receiver less. -/
theorem Reads.of_passes (hr : h.Reads key v n r) (hp : h.Passes .index key v w) :
    ∃ k, k < n ∧ h.Reads key w k r := by
  obtain ⟨he, hf, hnil, hfun⟩ := hp
  cases hr with
  | entry he' => exact absurd he he'
  | absent _ hn | refused _ hn => exact absurd (hf.symm.trans hn) hnil
  | handler _ hf' => exact absurd (hf.symm.trans hf') (hfun _)
  | next hp' hr' =>
      obtain rfl := hf.symm.trans hp'.2.1
      exact ⟨_, Nat.lt_succ_self _, hr'⟩

/-- Reading ends nowhere if it comes back to a receiver. -/
theorem not_reads_of_loop {u : Value} (hreach : Relation.ReflTransGen (h.Passes .index key) v u)
    (hloop : Relation.TransGen (h.Passes .index key) u u) : ¬ h.Reads key v n r := by
  have hbelow : ∀ {u' n}, h.Reads key u n r → Relation.TransGen (h.Passes .index key) u u' →
      ∃ k, k < n ∧ h.Reads key u' k r := by
    intro u' n hr ht
    induction ht with
    | single hp => exact hr.of_passes hp
    | tail _ hp ih =>
        obtain ⟨k, hk, hr'⟩ := ih
        obtain ⟨j, hj, hr''⟩ := hr'.of_passes hp
        exact ⟨j, Nat.lt_trans hj hk, hr''⟩
  intro hr
  induction hreach using Relation.ReflTransGen.head_induction_on generalizing n with
  | refl =>
      obtain ⟨k, hk, hr'⟩ := hbelow hr hloop
      exact absurd (hr'.unique hr).1 (Nat.ne_of_lt hk)
  | head hp _ ih =>
      obtain ⟨k, -, hr'⟩ := hr.of_passes hp
      exact ih hr'

end Heap

/-! ### Reads of a run -/

namespace Machine

/-- The machine with one more notice in its log. -/
def noting (m : Machine) (n : Notice) : Machine := { m with log := n :: m.log }

/-- The machine with another bound on the receivers of an access. -/
def withChainLimit (m : Machine) (limit : Nat) : Machine :=
  { m with config := some { m.limits with maxMetaChain := limit } }

/-- How an access ends that would have to visit too many receivers. -/
def chainTooLong {α : Type} (m : Machine) (field : Metafield) : Except Halt α × Machine :=
  (.error (.error (.runtime (.string ("'" ++ field.key ++ "' chain too long; possible loop")))),
    m.configured.noting (.chainExceeded field m.limits.maxMetaChain))

end Machine

/-- How a read ends. -/
def Reading.outcome (E : Engine) (key : Value) (m : Machine) : Reading → Except Halt Value × Machine
  | .gives v => (.ok v, m.configured)
  | .refuses v =>
    (.error (.error (.runtime (.string ("attempt to index a " ++ v.kind.name ++ " value")))),
      m.configured)
  | .calls f v =>
    E.callOne (.function f) [v, key] (m.configured.noting (.callingHandler .index key))

namespace Engine

variable (E : Engine) {m : Machine} {receiver key : Value}

/-- A read asks for the configuration, walks, and carries out what the walk found. -/
theorem getIndex_apply : E.getIndex receiver key m =
    (match m.heap.findIndex key m.limits.maxMetaChain receiver with
      | .value v => pure v
      | .refused v => Action.fault (.notIndexable v.kind)
      | .handler f v => do
        Action.notice (.callingHandler .index key)
        E.callOne (.function f) [v, key]
      | .tooLong => do
        Action.notice (.chainExceeded .index m.limits.maxMetaChain)
        Action.fault (.chainTooLong .index) : Action Value) m.configured := rfl

/-- A read ends with what its walk finds, if it finds something. -/
theorem getIndex_of_found {r : Reading}
    (h : m.heap.findIndex key m.limits.maxMetaChain receiver = r.found) :
    E.getIndex receiver key m = r.outcome E key m := by
  rw [getIndex_apply, h]
  cases r with
  | gives v => rfl
  | refuses v => rfl
  | calls f v => rfl

/-- A read fails if its walk is too long. -/
theorem getIndex_of_tooLong
    (h : m.heap.findIndex key m.limits.maxMetaChain receiver = .tooLong) :
    E.getIndex receiver key m = m.chainTooLong .index := by
  rw [getIndex_apply, h]
  rfl

/-- A read that visits no more receivers than there may be ends with what it comes to. -/
theorem getIndex_of_reads {n : Nat} {r : Reading} (hr : m.heap.Reads key receiver n r)
    (hn : n ≤ m.limits.maxMetaChain) : E.getIndex receiver key m = r.outcome E key m :=
  E.getIndex_of_found ((hr.findIndex_eq _).trans (if_pos hn))

/-- A read that nothing settles within the limit fails. -/
theorem getIndex_of_not_reads
    (hlong : ∀ n r, m.heap.Reads key receiver n r → m.limits.maxMetaChain < n) :
    E.getIndex receiver key m = m.chainTooLong .index := by
  rcases m.heap.findIndex_eq_tooLong_or_reads key m.limits.maxMetaChain receiver with
    hfound | ⟨n, r, hr, hn⟩
  · exact E.getIndex_of_tooLong hfound
  · exact absurd hn (Nat.not_le.2 (hlong n r hr))

end Engine

/-- What a call of a function does depends on what this function does, where the call starts it, and
on nothing else that functions do. -/
theorem Engine.invoke_congr {E E' : Engine} {f : Closure} {args : List Value} {m : Machine}
    (h : E'.apply .called f args (m.entered m.log) = E.apply .called f args (m.entered m.log)) :
    E'.invoke .called (.function f) args m = E.invoke .called (.function f) args m := by
  rcases Nat.lt_or_ge m.depth m.limits.maxCallDepth with hlt | hge
  · rw [invoke_of_lt hlt, invoke_of_lt hlt]
    exact congrArg leave h
  · rw [invoke_of_deepest hge, invoke_of_deepest hge]

/-- Two engines that run a function alike give the same first result of its call. -/
theorem Engine.callOne_congr {E E' : Engine} {f : Closure} {args : List Value} {m : Machine}
    (h : E'.apply .called f args (m.entered m.log) = E.apply .called f args (m.entered m.log)) :
    E'.callOne (.function f) args m = E.callOne (.function f) args m := by
  unfold callOne
  simp only [Bind.bind, invoke_congr h]

/-- A read is one call of a handler, for a receiver. -/
structure Engine.ReadsByCall (E : Engine) (m : Machine) (receiver key : Value) (f : Closure)
    (v : Value) : Prop where
  /-- It is a call of the handler, and the same call with a larger limit. -/
  call : ∀ limit, m.limits.maxMetaChain ≤ limit →
    E.getIndex receiver key (m.withChainLimit limit) =
      E.callOne (.function f) [v, key]
        ((m.withChainLimit limit).noting (.callingHandler .index key))
  /-- No other function runs, and this one runs once: it only matters what the handler
  does there. -/
  once : ∀ E' : Engine,
    E'.apply .called f [v, key] (m.entered (.callingHandler .index key :: m.log)) =
      E.apply .called f [v, key] (m.entered (.callingHandler .index key :: m.log)) →
    E'.getIndex receiver key m = E.getIndex receiver key m

/-- A read calls nothing, and does nothing but install the configuration and give notices. -/
structure Engine.ReadsQuietly (E : Engine) (m : Machine) (receiver key : Value) : Prop where
  /-- It does not matter what functions do. -/
  calls_nothing : ∀ E' : Engine, E'.getIndex receiver key m = E.getIndex receiver key m
  keeps : ∃ log, (E.getIndex receiver key m).2 = { m.configured with log }
  /-- A larger limit changes nothing, unless the chain was too long. -/
  larger_limit : ∀ limit, m.limits.maxMetaChain ≤ limit →
    E.getIndex receiver key m = m.chainTooLong .index ∨
    (E.getIndex receiver key (m.withChainLimit limit)).1 = (E.getIndex receiver key m).1

namespace Engine

variable (E : Engine) {m : Machine} {receiver key : Value}

/-- A read that comes to a function calls it, and it alone. -/
theorem readsByCall {n : Nat} {f : Closure} {v : Value}
    (hr : m.heap.Reads key receiver n (.calls f v)) (hn : n ≤ m.limits.maxMetaChain) :
    E.ReadsByCall m receiver key f v where
  call limit hlimit :=
    E.getIndex_of_reads (m := m.withChainLimit limit) hr (Nat.le_trans hn hlimit)
  once E' h := by
    rw [E'.getIndex_of_reads hr hn, E.getIndex_of_reads hr hn]
    exact callOne_congr h

/-- A read that comes to no function calls none, whatever functions do. -/
theorem readsQuietly
    (hcalls : ∀ n f v, m.heap.Reads key receiver n (.calls f v) → m.limits.maxMetaChain < n) :
    E.ReadsQuietly m receiver key := by
  rcases m.heap.findIndex_eq_tooLong_or_reads key m.limits.maxMetaChain receiver with
    hlong | ⟨n, r, hr, hn⟩
  · have hend := fun E' : Engine => E'.getIndex_of_tooLong hlong
    exact ⟨fun E' => (hend E').trans (hend E).symm, ⟨_, congrArg Prod.snd (hend E)⟩,
      fun _ _ => .inl (hend E)⟩
  · have hend := fun E' : Engine => E'.getIndex_of_reads hr hn
    cases r with
    | calls f v => exact absurd hn (Nat.not_le.2 (hcalls n f v hr))
    | gives v | refuses v =>
        refine ⟨fun E' => (hend E').trans (hend E).symm, ⟨_, congrArg Prod.snd (hend E)⟩,
          fun limit hlimit => .inr ?_⟩
        rw [E.getIndex_of_reads (m := m.withChainLimit limit) hr (Nat.le_trans hn hlimit), hend E]
        rfl

end Engine

/-- **Reading is the recursion, within the limit.**  If the recursion ends and visits no more
receivers than the limit, a read ends as it says, and otherwise fails because the chain is too long;
and the recursion says one thing only.  When it says to call a handler, this one call is all that is
run.  When no handler is called, a read changes nothing, and a larger limit changes no other outcome
than that of a chain that is too long.  A walk that comes back to a receiver is too long for every
limit. -/
theorem getIndex_refines_reads (E : Engine) (m : Machine) (receiver key : Value) :
    (∀ n r, m.heap.Reads key receiver n r → n ≤ m.limits.maxMetaChain →
      E.getIndex receiver key m = r.outcome E key m) ∧
    ((∀ n r, m.heap.Reads key receiver n r → m.limits.maxMetaChain < n) →
      E.getIndex receiver key m = m.chainTooLong .index) ∧
    (∀ n r n' r', m.heap.Reads key receiver n r → m.heap.Reads key receiver n' r' →
      n = n' ∧ r = r') ∧
    (∀ n f v, m.heap.Reads key receiver n (.calls f v) → n ≤ m.limits.maxMetaChain →
      E.ReadsByCall m receiver key f v) ∧
    ((∀ n f v, m.heap.Reads key receiver n (.calls f v) → m.limits.maxMetaChain < n) →
      E.ReadsQuietly m receiver key) ∧
    (∀ v, Relation.ReflTransGen (m.heap.Passes .index key) receiver v →
      Relation.TransGen (m.heap.Passes .index key) v v → ∀ limit,
      E.getIndex receiver key (m.withChainLimit limit) =
        (m.withChainLimit limit).chainTooLong .index) := by
  refine ⟨fun n r => E.getIndex_of_reads, E.getIndex_of_not_reads,
    fun n r n' r' => Heap.Reads.unique, fun n f v => E.readsByCall, E.readsQuietly, ?_⟩
  intro v hreach hloop limit
  exact E.getIndex_of_not_reads fun n r hr =>
    absurd hr (Heap.not_reads_of_loop (h := m.heap) hreach hloop)

/-- A heap with a proxy and a loop: table `1` has a metatable, table `2`, whose handler for reads is
table `3`; table `4` has a metatable, table `5`, whose handler for reads is table `4` again. -/
def Heap.proxied : Heap :=
  ⟨#[Table.empty, Table.empty.setMetatable (some ⟨2⟩),
    Table.ofHistory [.set (.string "__index") (.table ⟨3⟩)],
    Table.ofHistory [.set (.string "x") (.boolean true)], Table.empty.setMetatable (some ⟨5⟩),
    Table.ofHistory [.set (.string "__index") (.table ⟨4⟩)]]⟩

theorem Heap.passes_proxied : Heap.proxied.Passes .index (.string "x") (.table ⟨1⟩) (.table ⟨3⟩) :=
  ⟨by decide, by decide, Value.noConfusion, fun _ => Value.noConfusion⟩

/-- The entry of the third table is read from the first one, over two receivers. -/
theorem Heap.reads_proxied :
    Heap.proxied.Reads (.string "x") (.table ⟨1⟩) 2 (.gives (.boolean true)) :=
  .next Heap.passes_proxied (.entry (by decide))

theorem Heap.loop_proxied :
    Relation.TransGen (Heap.proxied.Passes .index (.string "x")) (.table ⟨4⟩) (.table ⟨4⟩) :=
  .single ⟨by decide, by decide, Value.noConfusion, fun _ => Value.noConfusion⟩

/-- An engine whose functions do nothing. -/
def Engine.idle : Engine := ⟨fun _ _ _ => pure .none, 0⟩

/-- The machine of a run on this heap, with a bound on the receivers of an access. -/
def Machine.proxied (limit : Nat) : Machine :=
  { heap := Heap.proxied, config := some { maxMetaChain := limit } }

/-- An engine whose functions record that they started, and give back their arguments. -/
def Engine.echoing : Engine where
  apply _ f args := do
    Action.recordStart f.name args
    return .many args
  probes := 0

/-- The function of the handlers below. -/
def echo : Closure := ⟨⟨0⟩, "echo", .script 0⟩

/-- A heap with a proxy of a table that has functions for handlers: table `1` has a metatable, table
`2`, whose handlers for reads and for writes are table `3`, and table `3` has a metatable, table
`4`, whose handlers are a function. -/
def Heap.handled : Heap :=
  ⟨#[Table.empty, Table.empty.setMetatable (some ⟨2⟩),
    Table.ofHistory
      [.set (.string "__index") (.table ⟨3⟩), .set (.string "__newindex") (.table ⟨3⟩)],
    Table.empty.setMetatable (some ⟨4⟩),
    Table.ofHistory [.set (.string "__index") (.function echo),
      .set (.string "__newindex") (.function echo)]]⟩

/-- The function is called for the first table, on the third one. -/
theorem Heap.reads_handled :
    Heap.handled.Reads (.string "x") (.table ⟨1⟩) 2 (.calls echo (.table ⟨3⟩)) :=
  .next ⟨by decide, by decide, Value.noConfusion, fun _ => Value.noConfusion⟩
    (.handler (by decide) (by decide))

/-- The machine of a run on this heap, with a bound on the receivers of an access. -/
def Machine.handled (limit : Nat) : Machine :=
  { heap := Heap.handled, config := some { maxMetaChain := limit } }

/-- A read through a proxy ends at the table behind it, the walk in the loop is too long, and where
there is a function for a handler, it is called once, for the table that has it. -/
theorem proxied_read_and_loop :
    (Heap.proxied.Reads (.string "x") (.table ⟨1⟩) 2 (.gives (.boolean true)) ∧
      Engine.idle.getIndex (.table ⟨1⟩) (.string "x") (.proxied 2) =
        (.ok (.boolean true), .proxied 2)) ∧
    Relation.TransGen (Heap.proxied.Passes .index (.string "x")) (.table ⟨4⟩) (.table ⟨4⟩) ∧
      Engine.idle.getIndex (.table ⟨4⟩) (.string "x") (.proxied 9) =
        (Machine.proxied 9).chainTooLong .index ∧
    Heap.handled.Reads (.string "x") (.table ⟨1⟩) 2 (.calls echo (.table ⟨3⟩)) ∧
      Engine.echoing.ReadsByCall (.handled 2) (.table ⟨1⟩) (.string "x") echo (.table ⟨3⟩) ∧
      ∃ m', Engine.echoing.getIndex (.table ⟨1⟩) (.string "x") (.handled 2) =
          (.ok (.table ⟨3⟩), m') ∧
        m'.trace = [⟨"echo", [.table ⟨3⟩, .string "x"], 1⟩] := by
  obtain ⟨hread, -, -, -, -, -⟩ :=
    getIndex_refines_reads Engine.idle (.proxied 2) (.table ⟨1⟩) (.string "x")
  obtain ⟨-, -, -, -, -, hloop⟩ :=
    getIndex_refines_reads Engine.idle (.proxied 9) (.table ⟨4⟩) (.string "x")
  obtain ⟨hhandled, -, -, hcall, -, -⟩ :=
    getIndex_refines_reads Engine.echoing (.handled 2) (.table ⟨1⟩) (.string "x")
  refine ⟨⟨Heap.reads_proxied, hread 2 _ Heap.reads_proxied (Nat.le_refl 2)⟩, Heap.loop_proxied,
    hloop _ .refl Heap.loop_proxied 9, Heap.reads_handled,
    hcall 2 _ _ Heap.reads_handled (Nat.le_refl 2), _,
    hhandled 2 _ Heap.reads_handled (Nat.le_refl 2), rfl⟩

end LuaKernel
