import LuaKernel.Machine

/-!
# Metatables

Which metatable a value has, and how a program sees and replaces it.  A table has its own
metatable or none, all strings share one, and no other value has any.  A metatable with a
`__metatable` entry is protected: a program sees the entry in its place, and cannot replace it.
-/

namespace LuaKernel

/-- The metatable that a value asks for: a table, or none if it is nil. -/
def Value.asMetatable? : Value → Option (Option TableId)
  | .nil => some none
  | .table m => some (some m)
  | _ => none

namespace Heap

/-- The metatable of a value. -/
def metatableOf (h : Heap) : Value → Option TableId
  | .table t => (h.get t).metatable
  | .string _ => some stringMetatable
  | _ => none

/-- A metafield of a value; nil when it has none. -/
def metafield (h : Heap) (v : Value) (field : Metafield) : Value :=
  match h.metatableOf v with
  | some m => (h.get m).rawGetString field.key
  | none => .nil

/-- The metatable of a value as a program sees it. -/
def getMetatable (h : Heap) (v : Value) : Value :=
  match h.metatableOf v with
  | some m =>
    let shown := (h.get m).rawGetString Metafield.metatable.key
    if shown.isNil then .table m else shown
  | none => .nil

/-- Replaces the metatable of a table.  The new metatable is looked at before the table is. -/
def setMetatable (h : Heap) (target metatable : Value) : Except Fault Heap :=
  match metatable.asMetatable? with
  | none => .error .nilOrTableExpected
  | some m =>
    if (h.metafield target .metatable).isNil then
      match target with
      | .table t => .ok (h.set t ((h.get t).setMetatable m))
      | v => .error (.expected .table v.kind)
    else .error .protectedMetatable

end Heap

/-- Replaces a metatable in the heap of a run, and gives the table. -/
def Action.replaceMetatable (target metatable : Value) : Action Value := do
  let h ← Action.ofExcept ((← Action.heap).setMetatable target metatable)
  Action.putHeap h
  return target

end LuaKernel
