import LuaKernel.Argument
import LuaKernel.Call

/-!
# Reading and writing with metatables

`receiver[key]` and `receiver[key] = v`.  An access visits receivers one after the other: at a
receiver that settles it, it ends; a handler that is a function ends it too, by being called; any
other handler is the next receiver.  How many receivers an access may visit is bounded.

Walking does not change anything, so it is a function of the heap alone (`findIndex`,
`findNewIndex`), and the actions only carry out what it found.
-/

namespace LuaKernel

/-- What a read comes to. -/
inductive IndexResult where
  /-- A raw entry, or nil at a table without a handler. -/
  | value (v : Value)
  /-- A receiver that has no entries and no handler. -/
  | refused (receiver : Value)
  /-- A function, to be called for a receiver. -/
  | handler (f : Closure) (receiver : Value)
  /-- Too many receivers. -/
  | tooLong

/-- What a write comes to. -/
inductive NewIndexResult where
  /-- A table that takes the write. -/
  | table (t : TableId)
  /-- A receiver that is no table. -/
  | refused (receiver : Value)
  /-- A function, to be called for a table. -/
  | handler (f : Closure) (receiver : Value)
  /-- Too many receivers. -/
  | tooLong

namespace Heap

/-- The raw entry of a value; nil when it is no table. -/
def rawEntry (h : Heap) (receiver key : Value) : Value :=
  match receiver with
  | .table t => (h.get t).rawGet key
  | _ => .nil

/-- Walks from a receiver to what a read of `key` comes to, over at most so many receivers. -/
def findIndex (h : Heap) (key : Value) : (limit : Nat) → (receiver : Value) → IndexResult
  | 0, _ => .tooLong
  | limit + 1, receiver =>
    let raw := h.rawEntry receiver key
    if !raw.isNil then .value raw
    else
      match h.metafield receiver .index with
      | .nil => if receiver.isTable then .value .nil else .refused receiver
      | .function f => .handler f receiver
      | next => findIndex h key limit next

/-- Walks from a receiver to what a write of `key` comes to, over at most so many receivers. -/
def findNewIndex (h : Heap) (key : Value) : (limit : Nat) → (receiver : Value) → NewIndexResult
  | 0, _ => .tooLong
  | limit + 1, receiver =>
    match receiver with
    | .table t =>
      if !((h.get t).rawGet key).isNil then .table t
      else
        match h.metafield receiver .newIndex with
        | .nil => .table t
        | .function f => .handler f receiver
        | next => findNewIndex h key limit next
    | _ => .refused receiver

end Heap

namespace Engine

variable (E : Engine)

/-- Reads `receiver[key]`. -/
def getIndex (receiver key : Value) : Action Value := do
  let limit := (← Action.config).maxMetaChain
  match (← Action.heap).findIndex key limit receiver with
  | .value v => return v
  | .refused v => Action.fault (.notIndexable v.kind)
  | .handler f v => do
    Action.notice (.callingHandler .index key)
    E.callOne (.function f) [v, key]
  | .tooLong => do
    Action.notice (.chainExceeded .index limit)
    Action.fault (.chainTooLong .index)

/-- Writes `receiver[key] = v`. -/
def setIndex (receiver key v : Value) : Action Unit := do
  let limit := (← Action.config).maxMetaChain
  match (← Action.heap).findNewIndex key limit receiver with
  | .table t => Action.rawSet t key v
  | .refused r => Action.fault (.notIndexable r.kind)
  | .handler f r => do
    Action.notice (.callingHandler .newIndex key)
    E.callNone (.function f) [r, key, v]
  | .tooLong => do
    Action.notice (.chainExceeded .newIndex limit)
    Action.fault (.chainTooLong .newIndex)

end Engine

namespace Action

/-- Stores values at consecutive integer keys of a table, from the position of a counter on.  The
counter goes on before the next value is looked for, so it goes one past the last value. -/
def storeFrom (t : TableId) : (counter : Int64) → List Value → Action Unit
  | counter, [] => do
    let _ ← advance counter
    return ()
  | counter, v :: vs => do
    let next ← advance counter
    rawSet t (.ofInt counter.toInt) v
    storeFrom t next vs

theorem storeFrom_nil (t : TableId) (counter : Int64) :
    storeFrom t counter [] = advance counter >>= fun _ => pure () := (rfl)

theorem storeFrom_cons (t : TableId) (counter : Int64) (v : Value) (vs : List Value) :
    storeFrom t counter (v :: vs) = advance counter >>= fun next =>
      rawSet t (.ofInt counter.toInt) v >>= fun _ => storeFrom t next vs := (rfl)

/-- Stores values at consecutive integer keys of a value that must be a table,
without metatables. -/
def setList (target : Value) (start : Int64) (vs : List Value) : Action Unit := do
  storeFrom (← ofExcept target.checkTable) start vs

end Action

end LuaKernel
