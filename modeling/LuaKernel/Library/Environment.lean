import LuaKernel.Library.Base
import LuaKernel.Library.Strings

/-!
# Environments

The functions of the libraries by name, and the global environment that holds them.  An environment
contains itself as `_G`, its version, the base functions, and the table of string functions, which
also becomes the handler for absent keys of strings.
-/

namespace LuaKernel

namespace Builtin

/-- The name of a library function. -/
def name : Builtin → String
  | .assert => "assert"
  | .error => "error"
  | .pcall => "pcall"
  | .select => "select"
  | .type => "type"
  | .tostring => "tostring"
  | .tonumber => "tonumber"
  | .setmetatable => "setmetatable"
  | .getmetatable => "getmetatable"
  | .rawget => "rawget"
  | .rawset => "rawset"
  | .rawequal => "rawequal"
  | .rawlen => "rawlen"
  | .ipairs _ => "ipairs"
  | .ipairsIterator => Library.iteratorName
  | .print _ => "print"
  | .byte => "byte"
  | .char => "char"
  | .len => "len"
  | .sub => "sub"

/-- Runs a library function. -/
def run (E : Engine) : Builtin → List Value → Action Ret
  | .assert => Library.assert
  | .error => Library.error
  | .pcall => Library.pcall E
  | .select => Library.select
  | .type => Library.type
  | .tostring => Library.tostring E
  | .tonumber => Library.tonumber
  | .setmetatable => Library.setmetatable
  | .getmetatable => Library.getmetatable
  | .rawget => Library.rawget
  | .rawset => Library.rawset
  | .rawequal => Library.rawequal
  | .rawlen => Library.rawlen
  | .ipairs iterator => Library.ipairs iterator
  | .ipairsIterator => Library.ipairsIterator E
  | .print outlet => Library.print E outlet
  | .byte => Library.byte
  | .char => Library.char
  | .len => Library.len
  | .sub => Library.sub

end Builtin

namespace Library

/-- The base functions that need nothing but themselves. -/
def baseFunctions : List Builtin :=
  [.assert, .error, .pcall, .select, .type, .tostring, .tonumber, .setmetatable, .getmetatable,
    .rawget, .rawset, .rawequal, .rawlen]

/-- The string functions. -/
def stringFunctions : List Builtin := [.byte, .char, .len, .sub]

/-- Puts a new function into a table, under its name. -/
def register (t : TableId) (b : Builtin) : Action Unit := do
  let f ← Action.newFunction b.name (.builtin b)
  Action.rawSet t (.string b.name) (.function f)

/-- Puts new functions into a table, under their names. -/
def registerAll (t : TableId) : List Builtin → Action Unit
  | [] => return ()
  | b :: bs => do
    register t b
    registerAll t bs

/-- Puts the base functions into an environment that prints to an outlet. -/
def registerBase (env : TableId) (outlet : Outlet) : Action Unit := do
  registerAll env baseFunctions
  let iterator ← Action.newFunction iteratorName (.builtin .ipairsIterator)
  register env (.ipairs iterator.id)
  register env (.print outlet)

/-- Puts the table of string functions into an environment, and makes it the handler for absent keys
of strings. -/
def registerStrings (env : TableId) : Action Unit := do
  let strings ← Action.newTable
  registerAll strings stringFunctions
  Action.rawSet env (.string "string") (.table strings)
  Action.rawSet Heap.stringMetatable (.string Metafield.index.key) (.table strings)
  Action.notice .stringsRegistered

/-- A new environment that prints to an outlet. -/
def openEnvironment (outlet : Outlet) : Action TableId := do
  let env ← Action.newTable
  Action.rawSet env (.string "_G") (.table env)
  let version := (← Action.config).version
  Action.rawSet env (.string "_VERSION") (.string version)
  registerBase env outlet
  registerStrings env
  Action.notice (.environmentOpened version)
  return env

end Library

end LuaKernel
