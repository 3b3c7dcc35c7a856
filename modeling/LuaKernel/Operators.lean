import LuaKernel.Access

/-!
# Operators

Length, conversion to a string, equality and order.  Each has a meaning of its own for some types,
and asks the metatable of its operands for the others.
-/

namespace LuaKernel

/-- A metafield of the first of two values, or else of the second. -/
def Heap.eitherMetafield (h : Heap) (a b : Value) (field : Metafield) : Value :=
  let handler := h.metafield a field
  if handler.isNil then h.metafield b field else handler

namespace Engine

variable (E : Engine)

/-! ### Length -/

/-- Counts on from `n` positions with values: probes `n + 1` and the following positions, at most so
many, for the first without a value. -/
def countFrom (v : Value) : (probes n : Nat) → Action Nat
  | 0, _ => Action.outOfFuel
  | probes + 1, n => do
    let entry ← E.getIndex v (.ofNat (n + 1))
    if entry.isNil then return n else countFrom v probes (n + 1)

/-- The length of a value: the number of bytes of a string, and for a table what its handler says
or else the number of positions with values before the first without one. -/
def length (v : Value) : Action Value :=
  match v with
  | .string s => do return .ofNat (← Action.bytes s).length
  | .table _ => do
    let handler := (← Action.heap).metafield v .length
    if handler.isNil then return .ofNat (← E.countFrom v E.probes 0)
    else E.callOne handler [v]
  | _ => Action.fault (.noLength v.kind)

/-! ### Conversion to a string -/

/-- The string that a handler for the conversion gave. -/
def textOfResult : Value → Action String
  | .string s => return s
  | .number x => return x.text
  | _ => Action.fault .textExpected

/-- The string of a value. -/
def toText (v : Value) : Action String :=
  match v with
  | .nil => return "nil"
  | .boolean b => return if b then "true" else "false"
  | .number x => return x.text
  | .string s => return s
  | .table _ => do
    let handler := (← Action.heap).metafield v .toText
    if handler.isNil then return "table" else textOfResult (← E.callOne handler [v])
  | .function _ => return "function"

/-- The strings of values, from left to right. -/
def toTexts : List Value → Action (List String)
  | [] => return []
  | v :: vs => do
    let s ← E.toText v
    let rest ← toTexts vs
    return s :: rest

/-! ### Equality and order -/

/-- `a == b`.  Only two tables that are not one ask their metatables. -/
def equal (a b : Value) : Action Bool :=
  if a.rawEqual b then return true
  else if a.isTable && b.isTable then do
    let handler := (← Action.heap).eitherMetafield a b .equal
    if handler.isNil then return false
    else return (← E.callOne handler [a, b]).isTruthy
  else return false

/-- `a < b`. -/
def less (a b : Value) : Action Bool :=
  match a, b with
  | .number x, .number y => return x.less y
  | .string s, .string t => return Utf8.less s t
  | _, _ => do
    let handler := (← Action.heap).eitherMetafield a b .less
    if handler.isNil then Action.fault (.incomparable a.kind b.kind)
    else return (← E.callOne handler [a, b]).isTruthy

/-- `a <= b`.  Without a handler of its own it is the contrary of `b < a`. -/
def lessEqual (a b : Value) : Action Bool :=
  match a, b with
  | .number x, .number y => return x.lessEqual y
  | .string s, .string t => return Utf8.lessEqual s t
  | _, _ => do
    let h ← Action.heap
    let handler := h.eitherMetafield a b .lessEqual
    let contrary := h.eitherMetafield b a .less
    if !handler.isNil then return (← E.callOne handler [a, b]).isTruthy
    else if !contrary.isNil then return !(← E.callOne contrary [b, a]).isTruthy
    else Action.fault (.incomparable a.kind b.kind)

end Engine

end LuaKernel
