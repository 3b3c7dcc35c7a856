import LuaKernel.Value

/-!
# Keys

Which values can be keys, and when two of them are one key.  A number is a key by its bits, with the
negative zero taken for zero; a NaN and nil are no keys.  A positive integer also names a slot of
the array part, counted from zero.
-/

namespace LuaKernel

/-- A key of a table. -/
inductive Key where
  | boolean (b : Bool)
  | number (x : Binary64)
  | string (s : String)
  | table (t : TableId)
  | function (f : FunctionId)
deriving DecidableEq

/-- The key of a number that is no NaN: both zeros have one key. -/
def Key.ofNumber (x : Binary64) : Key := .number (if x.isZero then Binary64.zero else x)

namespace Value

/-- The key that a value is. -/
def key? : Value → Option Key
  | .nil => none
  | .boolean b => some (.boolean b)
  | .number x => if x.isNaN then none else some (Key.ofNumber x)
  | .string s => some (.string s)
  | .table t => some (.table t)
  | .function f => some (.function f.id)

/-- The slot of the array part that a value names, counted from zero. -/
def slot? (v : Value) : Option Nat :=
  match v.asInteger? with
  | some i => if 1 ≤ i then some (i - 1).toNat else none
  | none => none

end Value

end LuaKernel
