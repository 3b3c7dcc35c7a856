/-!
# Metafields

The entries of a metatable that have a meaning.  Each has a string as its key.
-/

namespace LuaKernel

/-- An entry of a metatable that changes how an operation treats its operands. -/
inductive Metafield where
  /-- Answers a read of an absent key. -/
  | index
  /-- Takes a write to an absent key. -/
  | newIndex
  /-- Makes a value callable. -/
  | call
  /-- Equality of two tables. -/
  | equal
  /-- The strict order. -/
  | less
  /-- The order. -/
  | lessEqual
  /-- The length. -/
  | length
  /-- The conversion to a string. -/
  | toText
  /-- Stands for the metatable, and protects it from being replaced. -/
  | metatable
deriving DecidableEq

namespace Metafield

/-- The key of a metafield. -/
def key : Metafield → String
  | .index => "__index"
  | .newIndex => "__newindex"
  | .call => "__call"
  | .equal => "__eq"
  | .less => "__lt"
  | .lessEqual => "__le"
  | .length => "__len"
  | .toText => "__tostring"
  | .metatable => "__metatable"

/-- All metafields. -/
def all : List Metafield :=
  [.index, .newIndex, .call, .equal, .less, .lessEqual, .length, .toText, .metatable]

/-- The metafield of a key. -/
def ofKey? (k : String) : Option Metafield := all.find? (·.key == k)

end Metafield

end LuaKernel
