/-!
# Binary floating point numbers

The numbers of the 64-bit binary format, and the one nearest to a decimal. A finite number is a natural
number below `2 ^ 53` times a power of two not below `2 ^ (-1074)`.
-/
namespace QueryPlan

inductive Binary64
  | nan
  | infinite (negative : Bool)
  | finite (negative : Bool) (mantissa : Nat) (exponent : Int)
deriving DecidableEq

namespace Binary64

/-- The natural number nearest to `num / den`; a half goes to the even neighbour. -/
def roundDiv (num den : Nat) : Nat :=
  let q := num / den
  let r := num % den
  if 2 * r < den then q else if den < 2 * r then q + 1 else q + q % 2

/-- `num / den` divided by `2 ^ e`, as a fraction. -/
def scale (num den : Nat) (e : Int) : Nat × Nat := (num * Nat.pow 2 (-e).toNat, den * Nat.pow 2 e.toNat)

/-- The largest `e` for which `2 ^ e` does not exceed `num / den`. -/
def logFloor (num den : Nat) : Int :=
  let e : Int := (num.log2 : Int) - den.log2
  let (n, d) := scale num den e
  if n < d then e - 1 else e

/-- The number nearest to the positive fraction `num / den`. -/
def ofFraction (negative : Bool) (num den : Nat) : Binary64 :=
  let e := max (logFloor num den - 52) (-1074)
  let (n, d) := scale num den e
  let m := roundDiv n d
  let (m, e) := if m = Nat.pow 2 53 then (Nat.pow 2 52, e + 1) else (m, e)
  if 971 < e then infinite negative else finite negative m e

/-- The number nearest to `m * 10 ^ e`. -/
def ofDecimal (negative : Bool) (m : Nat) (e : Int) : Binary64 :=
  let magnitude : Int := (Nat.toDigits 10 m).length + e
  if m = 0 ∨ magnitude < -330 then finite negative 0 (-1074)
  else if 330 < magnitude then infinite negative
  else ofFraction negative (m * Nat.pow 10 e.toNat) (Nat.pow 10 (-e).toNat)

end Binary64

end QueryPlan
