import LuaKernel.Number.Rounding

/-!
# Numerals

How a text is read as a number.  Around the numeral there may be blanks; before it there may be one
sign.  A numeral is a hexadecimal integer with `0x` or `0X` in front, or decimal digits with an
optional point, at least one digit beside it, and an optional exponent.  Everything else is no
number: hexadecimal fractions, names of infinity and NaN, blanks inside, two signs.

A decimal numeral is rounded once.  A hexadecimal numeral is accumulated digit by digit, and each
step rounds.
-/

namespace LuaKernel.Numeral

/-- The characters that may surround a numeral. -/
def isBlank (c : Char) : Bool :=
  c == ' ' || c == '\t' || c == '\n' || c == '\r' || c == '\x0b' || c == '\x0c'

/-- A text without the blanks at its two ends. -/
def trim (cs : List Char) : List Char :=
  ((cs.dropWhile isBlank).reverse.dropWhile isBlank).reverse

/-- The sign of a text, whether it is a minus, and what follows it. -/
def splitSign : List Char → Bool × List Char
  | '-' :: rest => (true, rest)
  | '+' :: rest => (false, rest)
  | cs => (false, cs)

/-- The number that decimal digits denote. -/
def natOfDigits (ds : List Char) : Nat := ds.foldl (fun n d => 10 * n + (d.toNat - '0'.toNat)) 0

/-- The value of a hexadecimal digit in either case. -/
def hexDigit? (c : Char) : Option Nat :=
  if c.isDigit then some (c.toNat - '0'.toNat)
  else if 'a' ≤ c ∧ c ≤ 'f' then some (c.toNat - 'a'.toNat + 10)
  else if 'A' ≤ c ∧ c ≤ 'F' then some (c.toNat - 'A'.toNat + 10)
  else none

/-- One more hexadecimal digit: sixteen times the number so far, plus the digit. -/
def hexStep (x : Binary64) (digit : Nat) : Binary64 :=
  ((Binary64.ofNat 16).mul x).add (Binary64.ofNat digit)

/-- Reads hexadecimal digits to the end of the text, after the number `x` that was read so far. -/
def hexFrom (x : Binary64) : List Char → Option Binary64
  | [] => some x
  | c :: rest =>
    match hexDigit? c with
    | some d => hexFrom (hexStep x d) rest
    | none => none

/-- Reads a hexadecimal integer with its mark. -/
def hex? : List Char → Option Binary64
  | '0' :: mark :: d :: rest =>
    if mark == 'x' || mark == 'X' then hexFrom Binary64.zero (d :: rest) else none
  | _ => none

/-- Reads an exponent to the end of the text; without a mark there is none, and it is zero. -/
def exponent? : List Char → Option Int
  | [] => some 0
  | mark :: rest =>
    if mark == 'e' || mark == 'E' then
      let (negative, ds) := splitSign rest
      if ds ≠ [] ∧ ds.all Char.isDigit then
        some (if negative then -(natOfDigits ds : Int) else natOfDigits ds)
      else none
    else none

/-- The digits after a point, if the text begins with one, and what follows them. -/
def splitFraction : List Char → List Char × List Char
  | '.' :: rest => (rest.takeWhile Char.isDigit, rest.dropWhile Char.isDigit)
  | cs => ([], cs)

/-- Reads a decimal numeral without its sign. -/
def decimal? (negative : Bool) (cs : List Char) : Option Binary64 :=
  let whole := cs.takeWhile Char.isDigit
  let (fraction, rest) := splitFraction (cs.dropWhile Char.isDigit)
  if whole = [] ∧ fraction = [] then none
  else
    match exponent? rest with
    | some e =>
      let digits := natOfDigits (whole ++ fraction)
      some (Binary64.ofDecimal negative digits (e - fraction.length))
    | none => none

/-- Reads a numeral between blanks. -/
def readChars? (cs : List Char) : Option Binary64 :=
  let (negative, unsigned) := splitSign (trim cs)
  match hex? unsigned with
  | some x => some (if negative then x.neg else x)
  | none => decimal? negative unsigned

/-- Reads a numeral between blanks. -/
def read? (s : String) : Option Binary64 := readChars? s.toList

end LuaKernel.Numeral
