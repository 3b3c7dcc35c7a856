import LuaKernel.Config
import LuaKernel.Metafield
import LuaKernel.Number.Binary64

/-!
# Programs

The language in which a host writes its functions and drives the kernel.  A step evaluates its
arguments from left to right, acts, and may store what it gave in registers.  Registers are shared
by all functions of a run.

Expressions build values: literals, registers, the arguments of the running function, new tables,
and new functions.  Steps act: they perform an operation of the kernel (`Op`), branch, repeat a
block a fixed number of times, or return.  Nothing repeats without a bound, so only calls can make a
run long.

The bodies of all functions stand in one place, the prototypes of the program, and a function
expression names its prototype by position.  So what a program can do at all is a property of its
prototypes and its steps, whatever values a run builds.
-/

namespace LuaKernel

/-- The operations of the kernel that a step can perform; `x`, `y` and `z` are its first three
arguments. -/
inductive Op where
  /-- Gives all arguments. -/
  | give
  /-- `x + y`, where what is no number counts as zero. -/
  | add
  /-- Raises `x` as a runtime error. -/
  | raise
  /-- Fails with an internal error of text `x`. -/
  | failInternal
  /-- Fails with an output error of text `x`. -/
  | failOutput
  /-- Reports all that can be seen of `x`. -/
  | inspect
  /-- Reports how `x` is described. -/
  | describe
  /-- Reports the text of the number `x`. -/
  | numberText
  /-- Reports the integer that the number `x` is. -/
  | toInteger
  /-- Whether `x` and `y` are raw-equal. -/
  | rawEqual
  /-- Reports the key that `x` is. -/
  | key
  /-- Whether `x` and `y` are one key, or both none. -/
  | keyEqual
  /-- The raw entry of the table `x` at `y`. -/
  | rawGet
  /-- Stores `z` in the table `x` at `y`, raw. -/
  | rawSet
  /-- The raw entry of the table `x` at an integer. -/
  | rawGetInt (position : Int)
  /-- The raw entry of the table `x` at the string `y`. -/
  | rawGetString
  /-- The metatable attached to the table `x`. -/
  | attachedMetatable
  /-- Attaches the metatable `y` to the table `x`, or takes it away, also when it is protected. -/
  | attachMetatable
  /-- The raw entries of the table `x` at all other arguments. -/
  | probe
  /-- Reports the measures of the table `x`. -/
  | measure
  /-- Reports the bytes of the string `x`. -/
  | bytes
  /-- The string of some bytes. -/
  | decode (bytes : List UInt8)
  /-- Reports the strings in the byte cache. -/
  | cached
  /-- `x[y]`. -/
  | getIndex
  /-- `x[y] = z`. -/
  | setIndex
  /-- Stores the other arguments in the table `x` from a position on, raw. -/
  | setList (start : Int64)
  /-- `#x`. -/
  | length
  /-- The string of `x`. -/
  | toText
  /-- `x == y`. -/
  | equal
  /-- `x < y`. -/
  | less
  /-- `x <= y`. -/
  | lessEqual
  /-- The metatable of `x` as a program sees it. -/
  | getMetatable
  /-- Replaces the metatable of `x` by `y`, unless it is protected. -/
  | setMetatable
  /-- The metatable that `x` has. -/
  | metatableOf
  /-- A metafield of `x`. -/
  | metafield (field : Metafield)
  /-- The key of a metafield. -/
  | metafieldKey (field : Metafield)
  /-- Calls `x` with the other arguments, for all results. -/
  | call
  /-- Calls `x` with the other arguments, for the first result. -/
  | callOne
  /-- Calls `x` with the other arguments, for no result. -/
  | callNone
  /-- Calls `x` with the other arguments, and catches a runtime error. -/
  | protectedCall
  /-- Runs the function `x` on the other arguments as part of the present call. -/
  | invoke
  /-- How many calls are under way. -/
  | callDepth
  /-- `x` as a number, or nil. -/
  | toNumber
  /-- The number that the string `x` denotes, or nil. -/
  | readNumeral
  /-- `x`, of which a number is wanted. -/
  | checkNumber
  /-- `x`, of which a string is wanted. -/
  | checkString
  /-- `x`, of which a table is wanted. -/
  | checkTable
  /-- Reports `x`, of which an integer is wanted. -/
  | checkInteger
  /-- Reports `x`, of which an integer is wanted, or a default for nil. -/
  | optInteger (default : Int)
  /-- Reports the configuration. -/
  | config
  /-- Whether a configuration was installed or read. -/
  | isConfigured
  /-- Installs a configuration, unless there is one. -/
  | configure (config : Config)
  /-- A new environment that prints to the sink of the run. -/
  | openEnvironment
  /-- A new environment that prints to the console. -/
  | openConsole

/-- Where a step stores what it gave. -/
inductive Target where
  | nowhere
  /-- The first value, or nil, goes to one register. -/
  | first (register : String)
  /-- The values go to the registers one by one, and nil where there are too few. -/
  | each (registers : List String)

mutual

/-- An expression. -/
inductive Expr where
  | nil
  | boolean (b : Bool)
  | number (x : Binary64)
  | string (s : String)
  | register (name : String)
  /-- An argument of the running function, counted from zero. -/
  | argument (position : Nat)
  /-- How many arguments the running function has. -/
  | argumentCount
  /-- Starts at the register of the global environment and reads one key after the other. -/
  | global (path : List String)
  /-- The metatable that all strings share. -/
  | stringMetatable
  /-- A new table with its values at `1, 2, …`. -/
  | list (items : List Expr)
  /-- A new table with entries, and with a metatable if the last expression gives a table. -/
  | table (entries : List Entry) (metatable : Expr)
  /-- A new function with a name; its prototype is given by position. -/
  | function (name : String) (prototype : Nat)

/-- An entry of a new table. -/
inductive Entry where
  | mk (key value : Expr)

end

/-- An argument of a step. -/
inductive Arg where
  | one (e : Expr)
  /-- All arguments of the running function from a position on. -/
  | rest (start : Nat)

mutual

/-- What a step does once its arguments have their values. -/
inductive Verb where
  | op (op : Op)
  /-- Returns all arguments. -/
  | returnAll
  /-- Returns the first argument. -/
  | returnOne
  /-- Runs one of two blocks, as the first argument says. -/
  | branch (yes no : List Step)
  /-- Runs a block a number of times. -/
  | loop (count : Nat) (body : List Step)

/-- A step. -/
inductive Step where
  | mk (verb : Verb) (args : List Arg) (target : Target)

end

/-- The body of functions; a quiet one leaves no trace when it is run. -/
structure Prototype where
  body : List Step
  quiet : Bool := false

instance : Inhabited Prototype := ⟨{ body := [] }⟩

/-- A step at the top of a program, and whether the host holds the sink while it runs. -/
structure TopStep where
  step : Step
  holdsSink : Bool := false

/-- A program: the bodies of its functions, and its steps. -/
structure Program where
  prototypes : Array Prototype
  steps : List TopStep

end LuaKernel
