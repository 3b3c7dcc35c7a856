import LuaKernel.Assoc
import LuaKernel.Fault
import LuaKernel.Table.Key

/-!
# Tables

A table keeps the values of `1, 2, …, n` in an array part and all other entries in a hash part.
The array part grows by an append at `n + 1`, which also takes over the entries of the hash part
that now follow; it shrinks when its last values are deleted.  In between it may have holes.

Reading and writing here is raw: no metatable takes part.  Storing nil deletes.
-/

namespace LuaKernel

/-- A table: its two parts and its metatable. -/
structure Table where
  array : Array Value
  hash : Assoc Key Value
  metatable : Option TableId

namespace Table

/-- The table without entries. -/
def empty : Table := ⟨#[], Assoc.empty, none⟩

instance : Inhabited Table := ⟨empty⟩

/-! ### Reading -/

/-- The value of a key in the hash part, or nil. -/
def hashGet (t : Table) (k : Key) : Value := (t.hash.get? k).getD .nil

/-- The value of a key, or nil; nil and NaN, which are no keys, have none. -/
def rawGet (t : Table) (key : Value) : Value :=
  let elsewhere :=
    match key.key? with
    | some k => t.hashGet k
    | none => .nil
  match key.slot? with
  | some i => if h : i < t.array.size then t.array[i] else elsewhere
  | none => elsewhere

/-- The value of an integer key. -/
def rawGetInt (t : Table) (i : Int) : Value := t.rawGet (.ofInt i)

/-- The value of a string key. -/
def rawGetString (t : Table) (s : String) : Value := t.hashGet (.string s)

/-! ### Writing -/

/-- Takes up to `steps` nils from the end of an array. -/
def trimSteps : (steps : Nat) → Array Value → Array Value
  | 0, a => a
  | n + 1, a =>
    match a.back? with
    | some .nil => trimSteps n a.pop
    | _ => a

/-- An array without the nils at its end. -/
def trim (a : Array Value) : Array Value := trimSteps a.size a

/-- Moves up to `steps` entries that follow the array part from the hash part to it. -/
def migrateSteps : (steps : Nat) → Table → Table
  | 0, t => t
  | n + 1, t =>
    let next := Key.ofNumber (Binary64.ofNat (t.array.size + 1))
    match t.hash.get? next with
    | some v => migrateSteps n { t with array := t.array.push v, hash := t.hash.erase next }
    | none => t

/-- Moves all entries that follow the array part from the hash part to it. -/
def migrate (t : Table) : Table := migrateSteps t.hash.size t

/-- Appends a value to the array part. -/
def append (t : Table) (k : Key) (v : Value) : Table :=
  migrate { t with array := t.array.push v, hash := t.hash.erase k }

/-- Stores a value in the hash part; nil deletes. -/
def hashSet (t : Table) (k : Key) (v : Value) : Table :=
  if v.isNil then { t with hash := t.hash.erase k } else { t with hash := t.hash.insert k v }

/-- Stores a value under a key. -/
def store (t : Table) (k : Key) (slot : Option Nat) (v : Value) : Table :=
  match slot with
  | some i =>
    if i < t.array.size then { t with array := trim (t.array.setIfInBounds i v) }
    else if i = t.array.size ∧ !v.isNil then t.append k v
    else t.hashSet k v
  | none => t.hashSet k v

/-- Stores a value under a key, which must be a key; nil deletes. -/
def rawSet (t : Table) (key v : Value) : Except Fault Table :=
  match key.key? with
  | some k => .ok (t.store k key.slot? v)
  | none => .error (if key.isNil then .keyIsNil else .keyIsNaN)

/-- Attaches a metatable, or takes it away. -/
def setMetatable (t : Table) (m : Option TableId) : Table := { t with metatable := m }

/-! ### Measures -/

/-- The first position from `lo` on, below `hi`, at which halving finds nil. -/
def boundary (a : Array Value) : (steps lo hi : Nat) → Nat
  | 0, lo, _ => lo
  | n + 1, lo, hi =>
    if lo < hi then
      let mid := (lo + hi) / 2
      if (a.getD mid .nil).isNil then boundary a n lo mid else boundary a n (mid + 1) hi
    else lo

/-- The length of the array part, up to a border: a position with a value before one without. -/
def length (t : Table) : Nat :=
  match t.array.back? with
  | none => 0
  | some v => if v.isNil then boundary t.array t.array.size 0 t.array.size else t.array.size

/-- The number of entries. -/
def count (t : Table) : Nat := t.array.countP (fun v => !v.isNil) + t.hash.size

/-- The sizes of the two parts, as a text. -/
def shape (t : Table) : String :=
  "table(array=" ++ t.array.size.repr ++ ", hash=" ++ t.hash.size.repr ++ ")"

/-! ### Histories -/

/-- A change to a table. -/
inductive Edit where
  | set (key value : Value)
  | setInt (position : Int) (value : Value)
  | setMetatable (metatable : Option TableId)

/-- Makes a change. -/
def edit? (t : Table) : Edit → Except Fault Table
  | .set k v => t.rawSet k v
  | .setInt i v => t.rawSet (.ofInt i) v
  | .setMetatable m => .ok (t.setMetatable m)

/-- Makes a change, or none where it fails. -/
def edit (t : Table) (e : Edit) : Table :=
  match t.edit? e with
  | .ok t' => t'
  | .error _ => t

/-- The table after a history of changes, from a table without entries. -/
def ofHistory (es : List Edit) : Table := es.foldl edit empty

end Table

end LuaKernel
