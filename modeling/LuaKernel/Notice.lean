import LuaKernel.Metafield
import LuaKernel.Value

/-!
# Notices

What a run reports to the log of its host, and how each report reads.
-/

namespace LuaKernel

/-- How much a notice matters. -/
inductive Level where
  | trace
  | debug
  | warn
deriving DecidableEq

/-- The name of a level. -/
def Level.name : Level → String
  | .trace => "TRACE"
  | .debug => "DEBUG"
  | .warn => "WARN"

/-- The part of the kernel that a notice comes from. -/
inductive Channel where
  | strings
  | calls
  | dispatch
  | library
deriving DecidableEq

/-- The name of a channel. -/
def Channel.name : Channel → String
  | .strings => "strings"
  | .calls => "call"
  | .dispatch => "dispatch"
  | .library => "stdlib"

/-- A report to the log. -/
inductive Notice where
  /-- The byte cache dropped a string of so many bytes. -/
  | dropped (size : Nat)
  /-- A value of a type is called through its metatable. -/
  | callingValue (kind : Kind)
  | depthReached (depth : Nat)
  | caught (payload : Value)
  /-- A handler is called for a key. -/
  | callingHandler (field : Metafield) (key : Value)
  | chainExceeded (field : Metafield) (limit : Nat)
  | stringsRegistered
  | environmentOpened (version : String)

namespace Notice

def level : Notice → Level
  | .dropped _ | .callingValue _ | .callingHandler _ _ => .trace
  | .caught _ | .stringsRegistered | .environmentOpened _ => .debug
  | .depthReached _ | .chainExceeded _ _ => .warn

def channel : Notice → Channel
  | .dropped _ => .strings
  | .callingValue _ | .depthReached _ | .caught _ => .calls
  | .callingHandler _ _ | .chainExceeded _ _ => .dispatch
  | .stringsRegistered | .environmentOpened _ => .library

def message : Notice → String
  | .dropped _ => "evicted byte buffer"
  | .callingValue _ => "dispatching __call"
  | .depthReached _ => "call depth limit reached"
  | .caught _ => "pcall caught error"
  | .callingHandler field _ => "calling " ++ field.key
  | .chainExceeded field _ => field.key ++ " chain exceeded limit"
  | .stringsRegistered => "string library registered"
  | .environmentOpened _ => "environment opened"

/-- The named details of a notice, as texts. -/
def fields : Notice → List (String × String)
  | .dropped size => [("len", size.repr)]
  | .callingValue kind => [("callee", kind.name)]
  | .depthReached depth => [("depth", depth.repr)]
  | .caught payload => [("payload", payload.describe)]
  | .callingHandler _ key => [("key", key.describe)]
  | .chainExceeded _ limit => [("limit", limit.repr)]
  | .stringsRegistered => []
  | .environmentOpened version => [("version", version)]

end Notice

end LuaKernel
