import LuaKernel.Assoc
import LuaKernel.Text.Utf8

/-!
# The byte cache

A bounded cache of the bytes of strings.  Asking for the bytes of a string makes it the most recent
one, and when there are more strings than the capacity, the one asked for longest ago is dropped.
-/

namespace LuaKernel

/-- The bytes of recent strings, the oldest first. -/
structure ByteCache where
  capacity : Nat
  entries : Assoc String (List UInt8)

namespace ByteCache

/-- The cache without entries. -/
def empty (capacity : Nat) : ByteCache := ⟨capacity, Assoc.empty⟩

/-- The cached strings, the oldest first. -/
def keys (c : ByteCache) : List String := c.entries.keys

def contains (c : ByteCache) (s : String) : Bool := c.entries.contains s

def size (c : ByteCache) : Nat := c.entries.size

/-- What asking a cache for the bytes of a string gives. -/
structure Answer where
  bytes : List UInt8
  cache : ByteCache
  /-- The string that was dropped to make room. -/
  dropped : Option String

/-- The bytes of a string, from the cache if it has them. -/
def get (c : ByteCache) (s : String) : Answer :=
  let bytes := (c.entries.get? s).getD (Utf8.bytes s)
  let entries := c.entries.insert s bytes
  if c.capacity < entries.size then
    ⟨bytes, { c with entries := entries.dropFirst }, entries.keys.head?⟩
  else ⟨bytes, { c with entries }, none⟩

end ByteCache

end LuaKernel
