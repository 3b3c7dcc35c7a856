import LuaKernel.Number.Layout
import LuaKernel.Text.Quoted

/-!
# Values

A value is nil, a boolean, a number, a string, a table or a function.  Tables and functions have
identities: a table value is the identity of a table in the heap, and a function value carries an
identity beside its name and its code, which is a function of a library or a prototype of the
program.

Raw equality compares numbers numerically, strings by content, and tables and functions by
identity.
-/

namespace LuaKernel

/-- The identity of a table. -/
structure TableId where
  index : Nat
deriving DecidableEq

/-- The identity of a function. -/
structure FunctionId where
  index : Nat
deriving DecidableEq

/-- Where printed lines go. -/
inductive Outlet where
  /-- The sink that the host gave to the run. -/
  | sink
  /-- The console. -/
  | console
deriving DecidableEq

/-- The functions of the libraries. -/
inductive Builtin where
  | assert
  | error
  | pcall
  | select
  | type
  | tostring
  | tonumber
  | setmetatable
  | getmetatable
  | rawget
  | rawset
  | rawequal
  | rawlen
  /-- Hands out its one iterator, given by its identity. -/
  | ipairs (iterator : FunctionId)
  | ipairsIterator
  | print (outlet : Outlet)
  | byte
  | char
  | len
  | sub
deriving DecidableEq

/-- What a function does when it is called. -/
inductive Code where
  | builtin (b : Builtin)
  /-- Runs a prototype of the program, given by position. -/
  | script (prototype : Nat)
deriving DecidableEq

/-- A function: its identity, its name and its code. -/
structure Closure where
  id : FunctionId
  name : String
  code : Code
deriving DecidableEq

/-- A value. -/
inductive Value where
  | nil
  | boolean (b : Bool)
  | number (x : Binary64)
  | string (s : String)
  | table (t : TableId)
  | function (f : Closure)
deriving DecidableEq

instance : Inhabited Value := ⟨.nil⟩

/-- The types of values. -/
inductive Kind where
  | nil
  | boolean
  | number
  | string
  | table
  | function
deriving DecidableEq

/-- The name of a type. -/
def Kind.name : Kind → String
  | .nil => "nil"
  | .boolean => "boolean"
  | .number => "number"
  | .string => "string"
  | .table => "table"
  | .function => "function"

namespace Value

/-- The type of a value. -/
def kind : Value → Kind
  | .nil => .nil
  | .boolean _ => .boolean
  | .number _ => .number
  | .string _ => .string
  | .table _ => .table
  | .function _ => .function

def isNil : Value → Bool
  | .nil => true
  | _ => false

def isTable : Value → Bool
  | .table _ => true
  | _ => false

/-- Everything but nil and false is taken for true. -/
def isTruthy : Value → Bool
  | .nil => false
  | .boolean b => b
  | _ => true

def ofInt (n : Int) : Value := .number (Binary64.ofInt n)

def ofNat (n : Nat) : Value := .number (Binary64.ofNat n)

/-- A number, or nil for none. -/
def ofNumber? : Option Binary64 → Value
  | some x => .number x
  | none => .nil

/-- A table, or nil for none. -/
def ofTable? : Option TableId → Value
  | some t => .table t
  | none => .nil

def asBoolean? : Value → Option Bool
  | .boolean b => some b
  | _ => none

def asNumber? : Value → Option Binary64
  | .number x => some x
  | _ => none

def asString? : Value → Option String
  | .string s => some s
  | _ => none

def asTable? : Value → Option TableId
  | .table t => some t
  | _ => none

def asFunction? : Value → Option Closure
  | .function f => some f
  | _ => none

/-- The integer that a value is, if it is a number and one of the signed sixty-four bit range. -/
def asInteger? (v : Value) : Option Int := v.asNumber?.bind Binary64.toInteger?

/-- Equality without metatables. -/
def rawEqual : Value → Value → Bool
  | .nil, .nil => true
  | .boolean a, .boolean b => a == b
  | .number x, .number y => x.equal y
  | .string s, .string t => s == t
  | .table t, .table u => t == u
  | .function f, .function g => f.id == g.id
  | _, _ => false

/-- How a value is shown to a reader of a log. -/
def describe : Value → String
  | .nil => "nil"
  | .boolean b => if b then "true" else "false"
  | .number x => x.text
  | .string s => Quoted.quote s
  | .table _ => "table"
  | .function f => "function(" ++ f.name ++ ")"

end Value

/-- How a function is shown on its own. -/
def Closure.describe (f : Closure) : String := "function: builtin: " ++ f.name

/-- The argument at a position counted from zero; nil where there is none. -/
def argument (args : List Value) (i : Nat) : Value := args.getD i .nil

/-- What a function returns: one value, or any number of values. -/
inductive Ret where
  | single (v : Value)
  | many (vs : List Value)
deriving DecidableEq

namespace Ret

/-- No values. -/
def none : Ret := .many []

/-- The first value, or nil. -/
def first : Ret → Value
  | .single v => v
  | .many vs => vs.headD .nil

/-- All values. -/
def toList : Ret → List Value
  | .single v => [v]
  | .many vs => vs

end Ret

end LuaKernel
