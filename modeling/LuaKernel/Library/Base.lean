import LuaKernel.Operators

/-!
# The base library

The functions that every program has at hand: checks and errors, protected calls, iteration,
conversion, metatables, raw access, and printing.
-/

namespace LuaKernel

/-- A required argument of a library function is missing. -/
def Fault.missing (position : Nat) (function : String) : Fault :=
  .badArgument position function .valueExpected

namespace Library

/-! ### Checks and errors -/

/-- Gives its arguments if the first is true, and else raises the second. -/
def assert (args : List Value) : Action Ret :=
  if (argument args 0).isTruthy then return .many args
  else
    match args[1]? with
    | some message => Action.raise (.runtime message)
    | none => Action.fault .assertionFailed

/-- Raises its first argument. -/
def error (args : List Value) : Action Ret := Action.raise (.runtime (argument args 0))

/-- Calls its first argument with the others, and catches a runtime error. -/
def pcall (E : Engine) : List Value → Action Ret
  | [] => Action.fault (.missing 1 "pcall")
  | callee :: args => do return .many (← E.protectedCall callee args)

/-! ### Iteration -/

/-- The name of the iterator. -/
def iteratorName : String := "ipairs_iter"

/-- The iterator over `1, 2, …`, the table, and zero to begin with. -/
def ipairs (iterator : FunctionId) (args : List Value) : Action Ret := do
  let t ← Action.ofExcept (atArgument 1 "ipairs" (argument args 0).checkTable)
  return .many [.function ⟨iterator, iteratorName, .builtin .ipairsIterator⟩, .table t, .ofInt 0]

/-- The next position and its value, or nothing at the first position without a value. -/
def ipairsIterator (E : Engine) (args : List Value) : Action Ret := do
  let i ← Action.ofExcept (atArgument 2 iteratorName (argument args 1).checkInteger)
  let key := Value.ofInt (i + 1)
  let v ← E.getIndex (argument args 0) key
  return if v.isNil then .none else .many [key, v]

/-! ### Selection -/

/-- How many of `count` arguments stand before the position `n`, which counts from one, or from the
end if it is negative.  Positions before the first stand for the first. -/
def selectStart (n : Int) (count : Nat) : Nat :=
  if n < 0 then (n + count).toNat else (n - 1).toNat

/-- The number of the other arguments, or those from a position on. -/
def select : List Value → Action Ret
  | [] => Action.fault (.missing 1 "select")
  | .string "#" :: rest => return .single (.ofNat rest.length)
  | selector :: rest => do
    let n ← Action.ofExcept (atArgument 1 "select" selector.checkInteger)
    return .many (rest.drop (selectStart n rest.length))

/-! ### Conversion -/

/-- The name of the type of an argument. -/
def type : List Value → Action Ret
  | [] => Action.fault (.missing 1 "type")
  | v :: _ => return .single (.string v.kind.name)

/-- An argument as a string. -/
def tostring (E : Engine) : List Value → Action Ret
  | [] => Action.fault (.missing 1 "tostring")
  | v :: _ => do return .single (.string (← E.toText v))

/-- An argument as a number, or nil. -/
def tonumber : List Value → Action Ret
  | [] => Action.fault (.missing 1 "tonumber")
  | v :: _ => return .single (.ofNumber? v.toNumber?)

/-! ### Metatables -/

/-- Replaces a metatable; both arguments are checked first. -/
def setmetatable (args : List Value) : Action Ret := do
  let target := argument args 0
  let metatable := argument args 1
  if metatable.isNil || metatable.isTable then
    let _ ← Action.ofExcept (atArgument 1 "setmetatable" target.checkTable)
    return .single (← Action.replaceMetatable target metatable)
  else Action.fault (.badArgument 2 "setmetatable" .nilOrTableExpected)

/-- The metatable of an argument as a program sees it. -/
def getmetatable (args : List Value) : Action Ret := do
  return .single ((← Action.heap).getMetatable (argument args 0))

/-! ### Raw access -/

/-- Reads a table, without metatables. -/
def rawget (args : List Value) : Action Ret := do
  let t ← Action.ofExcept (atArgument 1 "rawget" (argument args 0).checkTable)
  return .single ((← Action.table t).rawGet (argument args 1))

/-- Writes to a table, without metatables. -/
def rawset (args : List Value) : Action Ret := do
  let t ← Action.ofExcept (atArgument 1 "rawset" (argument args 0).checkTable)
  Action.rawSet t (argument args 1) (argument args 2)
  return .single (.table t)

/-- Compares two arguments, without metatables. -/
def rawequal (args : List Value) : Action Ret :=
  return .single (.boolean ((argument args 0).rawEqual (argument args 1)))

/-- The length of a table or a string, without metatables. -/
def rawlen (args : List Value) : Action Ret :=
  match argument args 0 with
  | .table t => do return .single (.ofNat (← Action.table t).length)
  | .string s => do return .single (.ofNat (← Action.bytes s).length)
  | _ => Action.fault (.badArgument 1 "rawlen" .tableOrStringExpected)

/-! ### Printing -/

/-- The line of some texts: tabulators between them, and a newline at the end. -/
def line (texts : List String) : String := String.intercalate "\t" texts ++ "\n"

/-- Prints the texts of its arguments as one line.  All texts are there before the first byte is
written. -/
def print (E : Engine) (outlet : Outlet) (args : List Value) : Action Ret := do
  let texts ← E.toTexts args
  Action.print outlet (Utf8.bytes (line texts))
  return .none

end Library

end LuaKernel
