/-!
# Sinks

Where printed bytes go.  A sink can refuse writes, fail when it is flushed, or take only so many
bytes; while the host holds it, nothing else can use it.
-/

namespace LuaKernel

/-- Which writes and flushes of a sink succeed. -/
inductive SinkPolicy where
  | accepts
  | refusesWrites
  | failsFlush
  /-- Takes a number of bytes in all. -/
  | limited (capacity : Nat)
deriving DecidableEq

/-- How a sink fails. -/
inductive SinkFailure where
  | closed
  | flushFailed
  | full
deriving DecidableEq

/-- The wording of a failure. -/
def SinkFailure.text : SinkFailure → String
  | .closed => "sink closed"
  | .flushFailed => "flush failed"
  | .full => "failed to write whole buffer"

/-- A sink: what it does, what it took, and whether the host holds it. -/
structure Sink where
  policy : SinkPolicy := .accepts
  written : List UInt8 := []
  held : Bool := false

namespace Sink

/-- How many of `n` further bytes a sink takes. -/
def room (s : Sink) (n : Nat) : Nat :=
  match s.policy with
  | .accepts | .failsFlush => n
  | .refusesWrites => 0
  | .limited capacity => min n (capacity - s.written.length)

/-- The failure of a write of `n` bytes. -/
def writeFailure? (s : Sink) (n : Nat) : Option SinkFailure :=
  match s.policy with
  | .accepts | .failsFlush => none
  | .refusesWrites => some .closed
  | .limited _ => if s.room n < n then some .full else none

/-- The failure of a flush. -/
def flushFailure? (s : Sink) : Option SinkFailure :=
  if s.policy = .failsFlush then some .flushFailed else none

/-- Writes the bytes that fit, then flushes; gives the first failure. -/
def print (s : Sink) (bytes : List UInt8) : Sink × Option SinkFailure :=
  ({ s with written := s.written ++ bytes.take (s.room bytes.length) },
    (s.writeFailure? bytes.length).or s.flushFailure?)

end Sink

end LuaKernel
