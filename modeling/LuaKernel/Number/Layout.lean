import LuaKernel.Number.Shortest

/-!
# The text of a number

A number is written with its shortest digits.  Where the decimal point stands decides between
positional notation and a mantissa with an exponent, and the two limits are the one choice of this
format (`Layout.standard`).  Both zeros are `0`; an exponent always has its sign.
-/

namespace LuaKernel

/-- The positions of the decimal point, counted from before the first digit, between which a number
is written without an exponent. -/
structure Layout where
  leastPoint : Int
  greatestPoint : Int

namespace Layout

/-- Positional notation from a millionth up to, and without, `10²¹`. -/
def standard : Layout := ⟨-5, 21⟩

/-- The digits with the decimal point at position `point`, filled up with zeros on either side. -/
def positional (digits : List Char) (point : Int) : List Char :=
  if point ≤ 0 then '0' :: '.' :: List.replicate (-point).toNat '0' ++ digits
  else if point < digits.length then
    digits.take point.toNat ++ '.' :: digits.drop point.toNat
  else digits ++ List.replicate (point - digits.length).toNat '0'

/-- The digits with the decimal point after the first one, and an exponent with its sign. -/
def exponential (digits : List Char) (point : Int) : List Char :=
  let mantissa :=
    match digits with
    | [] => []
    | [d] => [d]
    | d :: rest => d :: '.' :: rest
  let exponent := point - 1
  let sign := if exponent < 0 then '-' else '+'
  mantissa ++ 'e' :: sign :: Nat.toDigits 10 exponent.natAbs

/-- The text of a decimal. -/
def decimal (layout : Layout) (d : Decimal) : List Char :=
  let digits := Nat.toDigits 10 d.digits
  let point := digits.length + d.exponent
  if layout.leastPoint ≤ point ∧ point ≤ layout.greatestPoint then positional digits point
  else exponential digits point

example : standard.decimal ⟨1, -6⟩ = ['0', '.', '0', '0', '0', '0', '0', '1'] := by decide +kernel

example : standard.decimal ⟨95, -8⟩ = ['9', '.', '5', 'e', '-', '7'] := by decide +kernel

example : standard.decimal ⟨12, -1⟩ = ['1', '.', '2'] := by decide +kernel

example : standard.decimal ⟨1, 3⟩ = ['1', '0', '0', '0'] := by decide +kernel

example : standard.decimal ⟨1, 21⟩ = ['1', 'e', '+', '2', '1'] := by decide +kernel

end Layout

/-- The characters of a number's text. -/
def Binary64.chars (x : Binary64) : List Char :=
  if x.isNaN then ['n', 'a', 'n']
  else if x.isZero then ['0']
  else
    let unsigned :=
      if x.isInfinite then ['i', 'n', 'f'] else Layout.standard.decimal (Decimal.shortest x.index)
    if x.isNegative then '-' :: unsigned else unsigned

/-- The text of a number. -/
def Binary64.text (x : Binary64) : String := String.ofList x.chars

end LuaKernel
