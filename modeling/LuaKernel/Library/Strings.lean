import LuaKernel.Argument
import LuaKernel.Machine

/-!
# The string library

Strings by their bytes.  Positions count bytes from one, and from the end if they are negative; a
range that reaches beyond the string is cut to it.
-/

namespace LuaKernel.Library

/-! ### Ranges of bytes -/

/-- How many of `size` bytes stand before the first position of a range. -/
def startOffset (i : Int) (size : Nat) : Nat :=
  if i < 0 then (i + size).toNat else min (i - 1).toNat size

/-- How many of `size` bytes stand up to the last position of a range. -/
def endOffset (j : Int) (size : Nat) : Nat :=
  if j < 0 then (j + (size + 1)).toNat else min j.toNat size

/-- The bytes from position `i` to position `j`, both included. -/
def slice (bytes : List UInt8) (i j : Int) : List UInt8 :=
  let start := startOffset i bytes.length
  (bytes.drop start).take (endOffset j bytes.length - start)

/-! ### Functions -/

/-- The numbers of the bytes in a range, by default of its first byte. -/
def byte (args : List Value) : Action Ret := do
  let s ← Action.ofExcept (atArgument 1 "byte" (argument args 0).checkString)
  let i ← Action.ofExcept (atArgument 2 "byte" ((argument args 1).optInteger 1))
  let j ← Action.ofExcept (atArgument 3 "byte" ((argument args 2).optInteger i))
  let bytes ← Action.bytes s
  return .many ((slice bytes i j).map fun b => .ofNat b.toNat)

/-- The bytes that arguments stand for, the first of them at a position. -/
def charBytes (position : Nat) : List Value → Except Fault (List UInt8)
  | [] => .ok []
  | v :: vs =>
    match atArgument position "char" v.checkInteger with
    | .error f => .error f
    | .ok n =>
      if 0 ≤ n ∧ n < 256 then
        match charBytes (position + 1) vs with
        | .ok bytes => .ok (UInt8.ofNat n.toNat :: bytes)
        | .error f => .error f
      else .error (.badArgument position "char" .valueOutOfRange)

/-- The string of the bytes with the given numbers. -/
def char (args : List Value) : Action Ret := do
  let bytes ← Action.ofExcept (charBytes 1 args)
  return .single (.string (Utf8.decodeString bytes))

/-- The number of bytes. -/
def len (args : List Value) : Action Ret := do
  let s ← Action.ofExcept (atArgument 1 "len" (argument args 0).checkString)
  return .single (.ofNat (← Action.bytes s).length)

/-- The string of the bytes in a range, by default up to the last byte. -/
def sub (args : List Value) : Action Ret := do
  let s ← Action.ofExcept (atArgument 1 "sub" (argument args 0).checkString)
  let bytes ← Action.bytes s
  let i ← Action.ofExcept (atArgument 2 "sub" ((argument args 1).optInteger 1))
  let j ← Action.ofExcept (atArgument 3 "sub" ((argument args 2).optInteger (-1)))
  return .single (.string (Utf8.decodeString (slice bytes i j)))

end LuaKernel.Library
