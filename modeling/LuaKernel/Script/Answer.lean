import LuaKernel.Config
import LuaKernel.Table.Basic

/-!
# Answers of steps

What a step gives: values, or a report on something that is no value of the language.
-/

namespace LuaKernel

/-- Everything that can be seen of a value without the heap. -/
structure Inspection where
  kind : Kind
  truthy : Bool
  boolean : Option Bool
  number : Option Binary64
  string : Option String
  isTable : Bool
  functionName : Option String
  integer : Option Int

/-- What can be seen of a value. -/
def Value.inspect (v : Value) : Inspection where
  kind := v.kind
  truthy := v.isTruthy
  boolean := v.asBoolean?
  number := v.asNumber?
  string := v.asString?
  isTable := v.isTable
  functionName := v.asFunction?.map (·.name)
  integer := v.asInteger?

/-- The measures of a table. -/
structure Measures where
  shape : String
  length : Nat
  count : Nat

/-- The measures of a table. -/
def Table.measures (t : Table) : Measures := ⟨t.shape, t.length, t.count⟩

/-- A report on something that is no value. -/
inductive Report where
  | inspection (i : Inspection)
  | text (s : String)
  | texts (ss : List String)
  | integer (n : Option Int)
  /-- The key of a value, and the value. -/
  | key (k : Option Key) (v : Value)
  | measures (m : Measures)
  | bytes (bs : List UInt8)
  | returned (r : Ret)
  | config (c : Config)
  | installed
  | rejected (c : Config)

/-- What a step gives. -/
inductive Answer where
  | values (vs : List Value)
  | report (r : Report)

namespace Answer

/-- No values. -/
def none : Answer := .values []

/-- One value. -/
def one (v : Value) : Answer := .values [v]

/-- The values of an answer.  Of the reports, only that on a returned result has any. -/
def toList : Answer → List Value
  | .values vs => vs
  | .report (.returned r) => r.toList
  | .report _ => []

end Answer

/-- How a step ends when it does not fail. -/
inductive Completion where
  | done (a : Answer)
  /-- The running function returns. -/
  | returned (r : Ret)

end LuaKernel
