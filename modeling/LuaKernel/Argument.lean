import LuaKernel.Fault
import LuaKernel.Number.Numeral

/-!
# Arguments

The conversions that functions apply to their arguments.  A string that is a numeral counts as a
number, and a number counts as a string.
-/

namespace LuaKernel

namespace Value

/-- The number that a value is or, being a string, denotes. -/
def toNumber? : Value → Option Binary64
  | .number x => some x
  | .string s => Numeral.read? s
  | _ => none

/-- A number is wanted. -/
def checkNumber (v : Value) : Except Fault Binary64 :=
  match v.toNumber? with
  | some x => .ok x
  | none => .error (.expected .number v.kind)

/-- An integer is wanted. -/
def checkInteger (v : Value) : Except Fault Int :=
  match v.checkNumber with
  | .ok x =>
    match x.toInteger? with
    | some n => .ok n
    | none => .error .noInteger
  | .error f => .error f

/-- An integer is wanted, or nil, which stands for a default. -/
def optInteger (v : Value) (default : Int) : Except Fault Int :=
  if v.isNil then .ok default else v.checkInteger

/-- A string is wanted. -/
def checkString : Value → Except Fault String
  | .string s => .ok s
  | .number x => .ok x.text
  | v => .error (.expected .string v.kind)

/-- A table is wanted. -/
def checkTable : Value → Except Fault TableId
  | .table t => .ok t
  | v => .error (.expected .table v.kind)

end Value

/-- Says of a failed check which argument of which function it was about. -/
def atArgument {α : Type} (position : Nat) (function : String) :
    Except Fault α → Except Fault α
  | .ok a => .ok a
  | .error f => .error (.badArgument position function f)

end LuaKernel
