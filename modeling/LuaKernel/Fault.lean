import LuaKernel.Metafield
import LuaKernel.Value

/-!
# Faults and errors

A fault is a cause of failure that the kernel itself finds; `Fault.message` is its wording.  An
error is what a run stops with.  Only a runtime error can be caught: it carries a value, which is
the message of the fault when the kernel raised it, and any value when a program did.
-/

namespace LuaKernel

/-- A cause of failure that the kernel finds. -/
inductive Fault where
  /-- Nil is no key. -/
  | keyIsNil
  /-- A NaN is no key. -/
  | keyIsNaN
  /-- An argument has the wrong type. -/
  | expected (wanted got : Kind)
  /-- A number is no integer. -/
  | noInteger
  /-- An argument of a library function fails for a reason. -/
  | badArgument (position : Nat) (function : String) (reason : Fault)
  /-- An argument is missing. -/
  | valueExpected
  | valueOutOfRange
  | tableOrStringExpected
  | nilOrTableExpected
  | assertionFailed
  | notIndexable (kind : Kind)
  | notCallable (kind : Kind)
  | noLength (kind : Kind)
  | incomparable (left right : Kind)
  /-- A chain of handlers visits too many receivers. -/
  | chainTooLong (field : Metafield)
  | stackOverflow
  /-- A handler for the conversion to a string gave something else. -/
  | textExpected
  | protectedMetatable

/-- The wording of a fault. -/
def Fault.message : Fault → String
  | .keyIsNil => "table index is nil"
  | .keyIsNaN => "table index is NaN"
  | .expected wanted got => wanted.name ++ " expected, got " ++ got.name
  | .noInteger => "number has no integer representation"
  | .badArgument position function reason =>
    "bad argument #" ++ position.repr ++ " to '" ++ function ++ "' (" ++ reason.message ++ ")"
  | .valueExpected => "value expected"
  | .valueOutOfRange => "value out of range"
  | .tableOrStringExpected => "table or string expected"
  | .nilOrTableExpected => "nil or table expected"
  | .assertionFailed => "assertion failed!"
  | .notIndexable kind => "attempt to index a " ++ kind.name ++ " value"
  | .notCallable kind => "attempt to call a " ++ kind.name ++ " value"
  | .noLength kind => "attempt to get length of a " ++ kind.name ++ " value"
  | .incomparable left right =>
    if left = right then "attempt to compare two " ++ left.name ++ " values"
    else "attempt to compare " ++ left.name ++ " with " ++ right.name
  | .chainTooLong field => "'" ++ field.key ++ "' chain too long; possible loop"
  | .stackOverflow => "stack overflow"
  | .textExpected => "'__tostring' must return a string"
  | .protectedMetatable => "cannot change a protected metatable"

/-- What a run stops with. -/
inductive Error where
  /-- Can be caught; carries any value. -/
  | runtime (payload : Value)
  /-- A broken assumption of the host. -/
  | internal (text : String)
  /-- The output failed. -/
  | output (text : String)

namespace Error

/-- The error that a fault is raised as. -/
def ofFault (f : Fault) : Error := .runtime (.string f.message)

/-- Whether a protected call catches an error. -/
def isRecoverable : Error → Bool
  | .runtime _ => true
  | _ => false

/-- The value that an error carries. -/
def payload? : Error → Option Value
  | .runtime v => some v
  | _ => none

/-- The text of an error. -/
def message : Error → String
  | .runtime (.string s) => s
  | .runtime (.number x) => x.text
  | .runtime v => "(error object is a " ++ v.kind.name ++ " value)"
  | .internal text => "internal error: " ++ text
  | .output text => "write failed: " ++ text

end Error

end LuaKernel
