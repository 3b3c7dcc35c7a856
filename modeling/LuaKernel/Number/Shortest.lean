import LuaKernel.Number.Rounding

/-!
# The shortest decimal of a number

A decimal is a natural number times a power of ten.  Many decimals read back as one number; the
shortest is the multiple of the greatest possible power of ten, and among the multiples of that
power the one nearest to the number, the larger one if two are equally near.

For each power of ten, from above the number downwards, only the two multiples next to the number
need a try: if any multiple reads back, so does one of these.  A number has an exact decimal, its
multiple of `2⁻¹⁰⁷⁴ = 5¹⁰⁷⁴ · 10⁻¹⁰⁷⁴`, which ends a search that found nothing.
-/

namespace LuaKernel

/-- The number `digits · 10 ^ exponent`. -/
structure Decimal where
  digits : Nat
  exponent : Int
deriving DecidableEq

namespace Decimal

/-- The number nearest to a decimal, with a sign. -/
def toBinary64 (negative : Bool) (d : Decimal) : Binary64 :=
  Binary64.ofDecimal negative d.digits d.exponent

/-- Whether a decimal reads back as the number at position `i` of the ladder. -/
def readsAs (d : Decimal) (i : Nat) : Bool := (d.toBinary64 false).index == i

/-- The magnitude at position `i` as a quotient of naturals, in units of `10 ^ exponent`. -/
def scaled (i : Nat) (exponent : Int) : Nat × Nat :=
  if 0 ≤ exponent then (Binary64.rung i, Binary64.one * Nat.pow 10 exponent.toNat)
  else (Binary64.rung i * Nat.pow 10 (-exponent).toNat, Binary64.one)

/-- The better one of the two multiples of `10 ^ exponent` next to the number at position `i`, among
those that read back. -/
def onGrid? (i : Nat) (exponent : Int) : Option Decimal :=
  let (num, den) := scaled i exponent
  let low : Decimal := ⟨num / den, exponent⟩
  let high : Decimal := ⟨num / den + 1, exponent⟩
  match low.readsAs i, high.readsAs i with
  | true, true => some (if 2 * (num % den) < den then low else high)
  | true, false => some low
  | false, true => some high
  | false, false => none

/-- The exact decimal of the magnitude at position `i`. -/
def exact (i : Nat) : Decimal := ⟨Binary64.rung i * Nat.pow 5 1074, -1074⟩

/-- Tries `steps` powers of ten downwards from `10 ^ exponent`. -/
def search (i : Nat) : (steps : Nat) → (exponent : Int) → Decimal
  | 0, _ => exact i
  | n + 1, exponent => (onGrid? i exponent).getD (search i n (exponent - 1))

/-- An exponent of ten above the magnitude at position `i`, by at most two. -/
def leadingExponent (i : Nat) : Int :=
  (((Binary64.rung i).log2 : Int) - 1073) * 30103 / 100000 + 1

/-- The shortest decimal that reads back as the positive number at position `i`. -/
def shortest (i : Nat) : Decimal := search i 24 (leadingExponent i)

end Decimal

end LuaKernel
