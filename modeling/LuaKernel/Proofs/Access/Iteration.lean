import LuaKernel.Proofs.Access.Counting
import LuaKernel.Script.Run

/-!
# Iterating over the positions of a table

A loop over an iterator calls it again and again, with the first of its results as the next control,
and runs a body on the results (`Engine.loop`).  The iterator of `ipairs` reads the next position of
a table with metatables, as the length operator does.

A call of this iterator is a read of the next position (`call_iterator`), if no function takes part
in reading: it does not matter then that the read happens one level deeper.  So the loop runs its
body on the positions and their values, one after the other, up to the first position that reads no
value (`loop_of_values`), whatever the body does beside the heap, the depth and the configuration
(`Machine.Stays`).  That this position is there, and that the length operator finds the same one, is
known from counting.
-/

namespace LuaKernel

/-- A loop over an iterator: calls it with the state and the control, runs the body on what it
gives, and goes on with the first of that as the control, until it gives nothing. -/
def Engine.loop (E : Engine) (body : List Value → Action Unit) (iterator state : Value) :
    (rounds : Nat) → (control : Value) → Action Unit
  | 0, _ => Action.outOfFuel
  | rounds + 1, control => do
    match ← E.call iterator [state, control] with
    | [] => return ()
    | first :: rest => do
      body (first :: rest)
      loop E body iterator state rounds first

/-! ### Machines that read the same -/

/-- A machine with the heap and the depth of another, and with its configuration installed. -/
structure Machine.Stays (m m' : Machine) : Prop where
  heap : m'.heap = m.heap
  depth : m'.depth = m.depth
  config : m'.config = some m.limits

theorem Machine.stays_configured (m : Machine) : m.Stays m.configured := ⟨rfl, rfl, rfl⟩

theorem Machine.Stays.limits_eq {m m' : Machine} (h : m.Stays m') : m'.limits = m.limits := by
  rw [Machine.limits, h.config]
  rfl

theorem Machine.Stays.configured_eq {m m' : Machine} (h : m.Stays m') : m'.configured = m' := by
  rw [Machine.configured, h.limits_eq, ← h.config]

namespace Engine

variable {m m' : Machine} {v key : Value}

/-- A read that calls no function comes to the same on all machines with the same heap and limits,
and changes nothing but that it installs the configuration and gives notices. -/
theorem getIndex_alike (hv : ∀ f, ¬m.heap.Leading v (.function f)) (m' : Machine)
    (hheap : m'.heap = m.heap) (hlimits : m'.limits = m.limits) (key : Value) :
    ∃ r notices, ∀ E : Engine,
      E.getIndex v key m = (r, { m.configured with log := notices ++ m.log }) ∧
      E.getIndex v key m' = (r, { m'.configured with log := notices ++ m'.log }) := by
  have hsame : m'.heap.findIndex key m'.limits.maxMetaChain v =
      m.heap.findIndex key m.limits.maxMetaChain v := by rw [hheap, hlimits]
  rcases m.heap.findIndex_eq_tooLong_or_reads key m.limits.maxMetaChain v with
    hlong | ⟨n, r, hr, hn⟩
  · refine ⟨_, [.chainExceeded .index m.limits.maxMetaChain],
      fun E => ⟨E.getIndex_of_tooLong hlong, ?_⟩⟩
    rw [E.getIndex_of_tooLong (hsame.trans hlong), ← hlimits]
    rfl
  · have hfound := (hr.findIndex_eq m.limits.maxMetaChain).trans (if_pos hn)
    cases r with
    | gives w =>
        exact ⟨_, [],
          fun E => ⟨E.getIndex_of_found hfound, E.getIndex_of_found (hsame.trans hfound)⟩⟩
    | refuses u =>
        exact ⟨_, [],
          fun E => ⟨E.getIndex_of_found hfound, E.getIndex_of_found (hsame.trans hfound)⟩⟩
    | calls f u => exact absurd hr (Heap.not_reads_calls hv)

/-- It does not matter for such a read what functions do. -/
theorem getIndex_eq_of_engine (E E' : Engine) (hv : ∀ f, ¬m.heap.Leading v (.function f)) :
    E.getIndex v key m = E'.getIndex v key m := by
  obtain ⟨r, notices, hend⟩ := getIndex_alike hv m rfl rfl key
  rw [(hend E).1, (hend E').1]

end Engine

/-! ### The iterator -/

section

variable {m : Machine} {v : Value}

/-- The iterator reads the integer after the control. -/
theorem Library.ipairsIterator_eq (E : Engine) (v : Value) {x : Binary64} {i : Int}
    (hx : x.toInteger? = some i) :
    ipairsIterator E [v, .number x] = do
      let w ← E.getIndex v (.ofInt (i + 1))
      return if w.isNil then .none else .many [.ofInt (i + 1), w] := by
  have hcheck : (argument [v, .number x] 1).checkInteger = .ok i := by
    simp only [argument, List.getD_cons_succ, List.getD_cons_zero, Value.checkInteger,
      Value.checkNumber, Value.toNumber?, hx]
  unfold ipairsIterator
  rw [hcheck]
  rfl

/-- A call of a library function that changes nothing but the log. -/
theorem Program.call_builtin (P : Program) (fuel : Nat) {g : Closure} {b : Builtin}
    (hg : g.code = .builtin b) (hdepth : m.depth < m.limits.maxCallDepth) {args : List Value}
    {r : Except Halt Ret} {log : List Notice}
    (hrun : b.run (P.engine fuel) args (m.entered m.log) = (r, m.entered log)) :
    (P.engine (fuel + 1)).call (.function g) args m =
      (r.map Ret.toList, { m.configured with log }) := by
  have happly : (P.engine (fuel + 1)).enter .called (.function g) args (m.entered m.log) =
      (r, m.entered log) := by
    rw [← hrun]
    simp only [Engine.enter, Program.engine, Program.apply, Program.runCode, hg]
  have hinvoke : (P.engine (fuel + 1)).invoke .called (.function g) args m =
      (r, { m.configured with log }) := by
    rw [Engine.invoke_of_lt hdepth, happly]
    rfl
  unfold Engine.call
  cases r with
  | ok ret => exact Action.bind_of_ok _ hinvoke
  | error e => exact Action.bind_of_error _ hinvoke

/-- **A call of the iterator is a read of the next position.** -/
theorem Program.call_iterator (P : Program) (fuel : Nat) {g : Closure}
    (hg : g.code = .builtin .ipairsIterator) (hv : ∀ f, ¬m.heap.Leading v (.function f))
    (hdepth : m.depth < m.limits.maxCallDepth) {i : Nat} (hi : i ≤ 2 ^ 53) (E : Engine) :
    (P.engine (fuel + 1)).call (.function g) [v, .ofNat i] m =
      (do let w ← E.getIndex v (.ofNat (i + 1))
          return if w.isNil then [] else [Value.ofNat (i + 1), w]) m := by
  have hnext : Value.ofInt ((i : Int) + 1) = .ofNat (i + 1) :=
    congrArg Value.ofInt (Int.natCast_succ i).symm
  -- The call reads one level deeper, where the heap and the limits are the same.
  obtain ⟨r, notices, hread⟩ := Engine.getIndex_alike hv (m.entered m.log) rfl rfl (.ofNat (i + 1))
  have hrun : Builtin.ipairsIterator.run (P.engine fuel) [v, .ofNat i] (m.entered m.log) =
      (r.map fun w => if w.isNil then .none else .many [.ofNat (i + 1), w],
        m.entered (notices ++ m.log)) := by
    rw [Builtin.run, Value.ofNat, Library.ipairsIterator_eq _ v (Binary64.toInteger?_ofNat hi),
      hnext]
    cases r with
    | ok w => exact Action.bind_of_ok _ (hread _).2
    | error e => exact Action.bind_of_error _ (hread _).2
  rw [P.call_builtin fuel hg hdepth hrun]
  cases r with
  | ok w =>
      rw [Action.bind_of_ok _ (hread E).1]
      cases w <;> rfl
  | error e => rw [Action.bind_of_error _ (hread E).1]; rfl

/-- `ipairs` gives the iterator, the table, and zero. -/
theorem Program.call_ipairs (P : Program) (fuel : Nat) {f : Closure} {iterator : FunctionId}
    (hf : f.code = .builtin (.ipairs iterator)) (hdepth : m.depth < m.limits.maxCallDepth)
    (t : TableId) :
    (P.engine (fuel + 1)).call (.function f) [.table t] m =
      (.ok [.function ⟨iterator, Library.iteratorName, .builtin .ipairsIterator⟩, .table t,
        .ofNat 0], m.configured) := by
  have hrun : (Builtin.ipairs iterator).run (P.engine fuel) [.table t] (m.entered m.log) =
      (.ok (.many [.function ⟨iterator, Library.iteratorName, .builtin .ipairsIterator⟩, .table t,
        .ofNat 0]), m.entered m.log) := rfl
  exact P.call_builtin fuel hf hdepth hrun

end

/-! ### The loop -/

namespace Engine

variable {m m' : Machine} {v key w : Value}

/-- A value that is read is read again for as long as the machine stays. -/
theorem getIndex_stays (hv : ∀ f, ¬m.heap.Leading v (.function f)) (hm : m.Stays m') {E : Engine}
    (hread : E.getIndex v key m = (.ok w, m.configured)) : E.getIndex v key m' = (.ok w, m') := by
  obtain ⟨r, notices, hend⟩ := getIndex_alike hv m' hm.heap hm.limits_eq key
  obtain ⟨rfl, hlog⟩ := Prod.mk.inj (hread.symm.trans (hend E).1)
  obtain rfl : notices = [] := List.append_left_eq_self.1 (congrArg Machine.log hlog).symm
  rw [(hend E).2, hm.configured_eq]
  rfl

/-- So is no value. -/
theorem getIndex_stays_of_noValue (hv : ∀ f, ¬m.heap.Leading v (.function f)) (hm : m.Stays m')
    {E : Engine} {r : Except Halt Value} {m'' : Machine} (hread : E.getIndex v key m = (r, m'')) :
    ∃ log, E.getIndex v key m' = (r, { m' with log }) := by
  obtain ⟨r, notices, hend⟩ := getIndex_alike hv m' hm.heap hm.limits_eq key
  obtain ⟨rfl, -⟩ := Prod.mk.inj (hread.symm.trans (hend E).1)
  rw [hm.configured_eq] at hend
  exact ⟨_, (hend E).2⟩

end Engine

namespace Program

variable {m m' : Machine} {v : Value} (P : Program) (fuel : Nat) {g : Closure}
  (hg : g.code = .builtin .ipairsIterator) (hv : ∀ f, ¬m.heap.Leading v (.function f))
  (hdepth : m.depth < m.limits.maxCallDepth)

include hg hv hdepth

/-- The iterator gives a position that reads a value, with the value. -/
theorem call_iterator_of_value (hm : m.Stays m') {i : Nat} (hi : i ≤ 2 ^ 53) {E : Engine}
    {w : Value} (hw : w ≠ .nil) (hread : E.getIndex v (.ofNat (i + 1)) m = (.ok w, m.configured)) :
    (P.engine (fuel + 1)).call (.function g) [v, .ofNat i] m' = (.ok [.ofNat (i + 1), w], m') := by
  rw [P.call_iterator fuel hg (hm.heap ▸ hv) (by rwa [hm.depth, hm.limits_eq]) hi E,
    Action.bind_of_ok _ (Engine.getIndex_stays hv hm hread)]
  simp only [Value.isNil_eq_false hw]
  rfl

/-- The iterator gives nothing where no value is read, or fails as the read does. -/
theorem call_iterator_of_noValue {i : Nat} (hi : i ≤ 2 ^ 53) {E : Engine} {r : Except Halt Value}
    (hr : NoValue r) (hread : E.getIndex v (.ofNat (i + 1)) m = (r, m')) :
    (P.engine (fuel + 1)).call (.function g) [v, .ofNat i] m = (r.map fun _ => [], m') := by
  rw [P.call_iterator fuel hg hv hdepth hi E]
  rcases hr with rfl | ⟨e, rfl⟩
  · exact Action.bind_of_ok _ hread
  · exact Action.bind_of_error _ hread

/-- One round at a position that reads a value: the body is run on the two, and the loop goes on. -/
theorem loop_of_value (hm : m.Stays m') {i : Nat} (hi : i ≤ 2 ^ 53) {E : Engine} {w : Value}
    (hw : w ≠ .nil) (hread : E.getIndex v (.ofNat (i + 1)) m = (.ok w, m.configured))
    (body : List Value → Action Unit) (rounds : Nat) :
    (P.engine (fuel + 1)).loop body (.function g) v (rounds + 1) (.ofNat i) m' =
      (do body [.ofNat (i + 1), w]
          (P.engine (fuel + 1)).loop body (.function g) v rounds (.ofNat (i + 1))) m' := by
  rw [Engine.loop, Action.bind_of_ok _ (P.call_iterator_of_value fuel hg hv hdepth hm hi hw hread)]

/-- The loop ends at a position that reads no value, as the read does. -/
theorem loop_of_noValue (hm : m.Stays m') {i : Nat} (hi : i ≤ 2 ^ 53) {E : Engine}
    {r : Except Halt Value} (hr : NoValue r) {last : Machine}
    (hread : E.getIndex v (.ofNat (i + 1)) m = (r, last)) (body : List Value → Action Unit)
    (rounds : Nat) :
    (P.engine (fuel + 1)).loop body (.function g) v (rounds + 1) (.ofNat i) m' =
      (do let _ ← E.getIndex v (.ofNat (i + 1)); return ()) m' := by
  obtain ⟨log, hend⟩ := Engine.getIndex_stays_of_noValue hv hm hread
  have hcall := P.call_iterator_of_noValue fuel hg (hm.heap ▸ hv) (by rwa [hm.depth, hm.limits_eq])
    hi hr hend
  rw [Engine.loop]
  rcases hr with rfl | ⟨e, rfl⟩
  · rw [Action.bind_of_ok _ hcall, Action.bind_of_ok _ hend]
  · rw [Action.bind_of_error _ hcall, Action.bind_of_error _ hend]

/-- **The loop runs its body on the positions and their values**, and ends at the first position
that reads no value. -/
theorem loop_of_values {body : List Value → Action Unit}
    (hbody : ∀ vs m', m.Stays m' → m.Stays (body vs m').2) {E : Engine} (value : Nat → Value)
    {i n : Nat} (hn : i + n ≤ 2 ^ 53)
    (hvalues : ∀ j ≥ i, j < i + n → value j ≠ .nil ∧
      E.getIndex v (.ofNat (j + 1)) m = (.ok (value j), m.configured))
    {r : Except Halt Value} (hr : NoValue r) {last : Machine}
    (hend : E.getIndex v (.ofNat (i + n + 1)) m = (r, last)) (hm : m.Stays m') (rounds : Nat) :
    (P.engine (fuel + 1)).loop body (.function g) v (n + rounds + 1) (.ofNat i) m' =
      (do forM (List.range' i n) fun j => body [.ofNat (j + 1), value j]
          let _ ← E.getIndex v (.ofNat (i + n + 1))
          return ()) m' := by
  -- By induction on the number of positions left, for all machines that the body can leave.
  induction n generalizing i m' with
  | zero =>
      rw [Nat.add_zero] at hn hend
      rw [Nat.zero_add, Nat.add_zero, P.loop_of_noValue fuel hg hv hdepth hm hn hr hend]
      rfl
  | succ n ih =>
      obtain ⟨hvalue, hread⟩ := hvalues i (Nat.le_refl i) (by omega)
      have hrounds : n + 1 + rounds + 1 = n + rounds + 1 + 1 := by omega
      have hlast : i + (n + 1) + 1 = i + 1 + n + 1 := by omega
      rw [hrounds, P.loop_of_value fuel hg hv hdepth hm (by omega) hvalue hread, List.range'_succ,
        List.forM_cons, bind_assoc]
      have hleft := hbody [.ofNat (i + 1), value i] m' hm
      rcases hstep : body [.ofNat (i + 1), value i] m' with ⟨e | u, m''⟩
      · rw [Action.bind_of_error _ hstep, Action.bind_of_error _ hstep]
      · rw [hstep] at hleft
        rw [Action.bind_of_ok _ hstep, Action.bind_of_ok _ hstep, hlast]
        exact ih (by omega) (fun j hj hlt => hvalues j (by omega) (by omega)) (hlast ▸ hend) hleft

end Program

/-! ### The visits -/

/-- **`ipairs` visits the positions in order, up to the first border.**  Let there be fewer than
`2⁵³` entries in the tables of the heap, and let no function be among the handlers that a read of a
table can come to.  Then there is a first position that reads no value; if the table has no handler
for its length, the length operator finds it too.

A call of `ipairs` gives an iterator, the table, and zero.  A loop over these, with a body that
changes neither the heap nor the depth nor the configuration, is the same as the body on each
position before the first without a value, with its value, in order, and then a read of that
position.  This is where the iterator gives nothing, or fails with the error of the read. -/
theorem ipairs_visits_positions (P : Program) (m : Machine) (t : TableId) (f : Closure)
    (iterator : FunctionId) (hf : f.code = .builtin (.ipairs iterator))
    (hfew : m.heap.live.encard < 2 ^ 53) (hindex : ∀ f, ¬m.heap.Leading (.table t) (.function f))
    (hdepth : m.depth < m.limits.maxCallDepth) :
    ∃ (next : Value) (n : ℕ) (value : ℕ → Value) (r : Except Halt Value) (log : List Notice),
      n ≤ m.heap.live.encard ∧ NoValue r ∧
      (∀ E : Engine,
        (∀ i < n, value i ≠ .nil ∧
          E.getIndex (.table t) (.ofNat (i + 1)) m = (.ok (value i), m.configured)) ∧
        E.getIndex (.table t) (.ofNat (n + 1)) m = (r, { m.configured with log }) ∧
        (m.heap.metafield (.table t) .length = .nil → n < E.probes →
          E.length (.table t) m = (r.map fun _ => .ofNat n, { m.configured with log }))) ∧
      ∀ fuel : ℕ,
        (P.engine (fuel + 1)).call (.function f) [.table t] m =
          (.ok [next, .table t, .ofNat 0], m.configured) ∧
        (P.engine (fuel + 1)).call next [.table t, .ofNat n] m.configured =
          (r.map fun _ => [], { m.configured with log }) ∧
        ∀ body : List Value → Action Unit,
          (∀ vs m', m.Stays m' → m.Stays (body vs m').2) → ∀ rounds > n,
          (P.engine (fuel + 1)).loop body next (.table t) rounds (.ofNat 0) m.configured =
            (do forM (List.range n) fun i => body [.ofNat (i + 1), value i]
                let _ ← (P.engine (fuel + 1)).getIndex (.table t) (.ofNat (n + 1))
                return ()) m.configured := by
  obtain ⟨n, r, log, hn, hr, hall⟩ := Engine.exists_first_end hfew hindex
  have hlt : n < 2 ^ 53 := by exact_mod_cast lt_of_le_of_lt hn hfew
  choose! value hvalue hread using (hall Engine.idle).1
  have hvalues : ∀ E : Engine, ∀ i < n, value i ≠ .nil ∧
      E.getIndex (.table t) (.ofNat (i + 1)) m = (.ok (value i), m.configured) := by
    intro E i hi
    rw [E.getIndex_eq_of_engine Engine.idle hindex]
    exact ⟨hvalue i hi, hread i hi⟩
  refine ⟨_, n, value, r, log, hn, hr, fun E => ⟨hvalues E, (hall E).2, fun hlength hprobes => ?_⟩,
    fun fuel => ⟨P.call_ipairs fuel hf hdepth t, ?_, fun body hbody rounds hrounds => ?_⟩⟩
  · exact E.length_counts hlength (hall E).1 hr (hall E).2 hprobes
  · exact P.call_iterator_of_noValue (m := m.configured) fuel rfl hindex hdepth (Nat.le_of_lt hlt)
      hr (hall Engine.idle).2
  · obtain ⟨rounds, rfl⟩ := Nat.exists_eq_add_of_lt hrounds
    rw [P.loop_of_values fuel rfl hindex hdepth hbody (E := P.engine (fuel + 1)) value (by omega)
      (fun i _ hi => hvalues _ i (by omega)) hr (Nat.zero_add n ▸ (hall _).2)
      m.stays_configured rounds,
      List.range_eq_range', Nat.zero_add]

/-- A loop over the table with the hole visits the one position before it, and ends. -/
theorem looped_visits :
    ∃ next, ∀ fuel,
      ((Program.mk #[] []).engine (fuel + 1)).call
        (.function ⟨⟨0⟩, "ipairs", .builtin (.ipairs ⟨1⟩)⟩) [.table ⟨2⟩] .looped =
          (.ok [next, .table ⟨2⟩, .ofNat 0], .looped) ∧
      ∀ rounds > 1,
        ((Program.mk #[] []).engine (fuel + 1)).loop (storeEach ["position", "value"]) next
          (.table ⟨2⟩) rounds (.ofNat 0) .looped =
            (.ok (), { Machine.looped with
              registers :=
                (Assoc.empty.insert "position" (.ofNat 1)).insert "value" (.string "a") }) := by
  obtain ⟨next, n, value, r, log, -, hr, hreads, hruns⟩ := ipairs_visits_positions ⟨#[], []⟩
    .looped ⟨2⟩ ⟨⟨0⟩, "ipairs", .builtin (.ipairs ⟨1⟩)⟩ ⟨1⟩ rfl Heap.encard_live_looped
    (fun f h => Heap.leading_looped (.inr rfl) h f rfl) (by decide)
  have hmetatable : (Heap.looped.get ⟨2⟩).metatable = none := by decide +kernel
  have hlimit : 0 < Config.standard.maxMetaChain := by decide
  have hraw : ∀ (E : Engine) (registers : Assoc String Value) (key : Value),
      E.getIndex (.table ⟨2⟩) key { Machine.looped with registers } =
        (.ok ((Heap.looped.get ⟨2⟩).rawGet key), { Machine.looped with registers }) :=
    fun E registers key => E.getIndex_of_metatable_none hmetatable hlimit
  have hfirst : (Heap.looped.get ⟨2⟩).rawGet (.ofNat 1) = .string "a" := by decide +kernel
  have hhole : (Heap.looped.get ⟨2⟩).rawGet (.ofNat 2) = .nil := by decide +kernel
  obtain ⟨hvalues, hend, -⟩ := hreads Engine.idle
  have hone : n = 1 := by
    refine Nat.le_antisymm (Nat.le_of_not_lt fun hlt => ?_) (Nat.pos_of_ne_zero fun hzero => ?_)
    · have hread := (hraw Engine.idle _ _).symm.trans (hvalues 1 hlt).2
      exact (hvalues 1 hlt).1 ((Except.ok.inj (Prod.mk.inj hread).1).symm.trans hhole)
    · subst hzero
      obtain rfl := (Prod.mk.inj ((hraw Engine.idle _ _).symm.trans hend)).1
      cases hfirst.symm.trans hr.eq_nil
  subst hone
  have hvalue : value 0 = .string "a" :=
    (Except.ok.inj (Prod.mk.inj ((hraw Engine.idle _ _).symm.trans
      (hvalues 0 Nat.one_pos).2)).1).symm.trans hfirst
  refine ⟨next, fun fuel => ⟨(hruns fuel).1, fun rounds hrounds => ?_⟩⟩
  refine ((hruns fuel).2.2 _ (fun vs m' h => ⟨h.1, h.2, h.3⟩) rounds hrounds).trans ?_
  refine (Action.bind_of_ok _ (a := ()) ?_).trans (Action.bind_of_ok _ (hraw _ _ _))
  rw [List.range_one, List.forM_cons, hvalue]
  rfl

end LuaKernel
