import LuaKernel.Library.Environment
import LuaKernel.Script.Answer
import LuaKernel.Script.Program

/-!
# Performing operations

What each operation of a program does with the values of its arguments.
-/

namespace LuaKernel

/-- The table that an operation works on. -/
def wantTable (v : Value) : Action TableId := Action.ofExcept v.checkTable

namespace Op

variable (E : Engine)

/-- A number for a sum: what is no number counts as zero. -/
def summand (v : Value) : Binary64 := v.asNumber?.getD Binary64.zero

/-- A value as a text for an error: a string, or how it is described. -/
def errorText : Value → String
  | .string s => s
  | v => v.describe

/-- Performs an operation on arguments, of which `x`, `y` and `z` are the first three. -/
def act (args : List Value) (x y z : Value) : Op → Action Answer
  | .give => return .values args
  | .add => return .one (.number ((summand x).add (summand y)))
  | .raise => Action.raise (.runtime x)
  | .failInternal => Action.raise (.internal (errorText x))
  | .failOutput => Action.raise (.output (errorText x))
  | .inspect => return .report (.inspection x.inspect)
  | .describe => return .report (.texts (x.describe :: (x.asFunction?.map Closure.describe).toList))
  | .numberText => return .report (.text (summand x).text)
  | .toInteger => return .report (.integer x.asInteger?)
  | .rawEqual => return .one (.boolean (x.rawEqual y))
  | .key => return .report (.key x.key? x)
  | .keyEqual => return .one (.boolean (x.key? == y.key?))
  | .rawGet => do return .one ((← Action.table (← wantTable x)).rawGet y)
  | .rawSet => do
    Action.rawSet (← wantTable x) y z
    return .none
  | .rawGetInt i => do return .one ((← Action.table (← wantTable x)).rawGetInt i)
  | .rawGetString => do
    return .one ((← Action.table (← wantTable x)).rawGetString (y.asString?.getD ""))
  | .attachedMetatable => do
    return .one (.ofTable? (← Action.table (← wantTable x)).metatable)
  | .attachMetatable => do
    Action.attachMetatable (← wantTable x) y.asTable?
    return .none
  | .probe => do
    let t ← Action.table (← wantTable x)
    return .values (args.tail.map t.rawGet)
  | .measure => do return .report (.measures (← Action.table (← wantTable x)).measures)
  | .bytes => do return .report (.bytes (← Action.bytes (x.asString?.getD "")))
  | .decode bs => return .one (.string (Utf8.decodeString bs))
  | .cached => do return .report (.texts (← Action.cached))
  | .getIndex => do return .one (← E.getIndex x y)
  | .setIndex => do
    E.setIndex x y z
    return .none
  | .setList start => do
    Action.setList x start args.tail
    return .none
  | .length => do return .one (← E.length x)
  | .toText => do return .one (.string (← E.toText x))
  | .equal => do return .one (.boolean (← E.equal x y))
  | .less => do return .one (.boolean (← E.less x y))
  | .lessEqual => do return .one (.boolean (← E.lessEqual x y))
  | .getMetatable => do return .one ((← Action.heap).getMetatable x)
  | .setMetatable => do return .one (← Action.replaceMetatable x y)
  | .metatableOf => do return .one (.ofTable? ((← Action.heap).metatableOf x))
  | .metafield field => do return .one ((← Action.heap).metafield x field)
  | .metafieldKey field => return .one (.string field.key)
  | .call => do return .values (← E.call x args.tail)
  | .callOne => do return .one (← E.callOne x args.tail)
  | .callNone => do
    E.callNone x args.tail
    return .none
  | .protectedCall => do return .values (← E.protectedCall x args.tail)
  | .invoke =>
    match x with
    | .function f => do return .report (.returned (← E.apply .inlined f args.tail))
    | v => Action.fault (.notCallable v.kind)
  | .callDepth => do return .one (.ofNat (← Action.callDepth))
  | .toNumber => return .one (.ofNumber? x.toNumber?)
  | .readNumeral => return .one (.ofNumber? (Numeral.read? (x.asString?.getD "")))
  | .checkNumber => do return .one (.number (← Action.ofExcept x.checkNumber))
  | .checkString => do return .one (.string (← Action.ofExcept x.checkString))
  | .checkTable => do return .one (.table (← Action.ofExcept x.checkTable))
  | .checkInteger => do return .report (.integer (some (← Action.ofExcept x.checkInteger)))
  | .optInteger default => do
    return .report (.integer (some (← Action.ofExcept (x.optInteger default))))
  | .config => do return .report (.config (← Action.config))
  | .isConfigured => do return .one (.boolean (← Action.isConfigured))
  | .configure c => do
    return .report (if ← Action.configure c then .installed else .rejected c)
  | .openEnvironment => do return .one (.table (← Library.openEnvironment .sink))
  | .openConsole => do return .one (.table (← Library.openEnvironment .console))

/-- Performs an operation on arguments; missing ones are nil. -/
def perform (args : List Value) (op : Op) : Action Answer :=
  op.act E args (argument args 0) (argument args 1) (argument args 2)

end Op

end LuaKernel
