/-!
# Configuration

The bounds of a run and the version it announces.
-/

namespace LuaKernel

/-- The bounds of a run and the version it announces. -/
structure Config where
  /-- How many receivers one access may visit along a chain of handlers. -/
  maxMetaChain : Nat := 2000
  /-- How deep calls may nest. -/
  maxCallDepth : Nat := 200
  /-- The version that an environment announces. -/
  version : String := "Lua 5.3"
deriving DecidableEq

/-- The configuration of a run that installs none. -/
def Config.standard : Config := {}

end LuaKernel
