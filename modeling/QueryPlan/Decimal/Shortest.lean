import QueryPlan.Decimal.Binary64

/-!
# Shortest decimals

The decimal with the fewest digits among those that are read back as a given number, and the nearest to the
number among these; of two equally near the larger is taken. It is written without an exponent.
-/
namespace QueryPlan

/-- The interval of fractions `n / den` that are read back as one number, and that number itself. -/
structure ReadingInterval where
  low : Nat
  value : Nat
  high : Nat
  den : Nat
  /-- Do the ends belong to the interval? -/
  closed : Bool

namespace ReadingInterval

/-- The interval of `mantissa * 2 ^ exponent`; below a power of two it reaches half as far. -/
def ofNumber (mantissa : Nat) (exponent : Int) : ReadingInterval :=
  let scale := Nat.pow 2 exponent.toNat
  let reach := if mantissa = Nat.pow 2 52 ∧ -1074 < exponent then 1 else 2
  ⟨(4 * mantissa - reach) * scale, 4 * mantissa * scale, (4 * mantissa + 2) * scale,
    4 * Nat.pow 2 (-exponent).toNat, mantissa % 2 = 0⟩

/-- Is `digits * 10 ^ place` in the interval? -/
def holds (v : ReadingInterval) (digits : Nat) (place : Int) : Bool :=
  let up := Nat.pow 10 (-place).toNat
  let point := digits * Nat.pow 10 place.toNat * v.den
  if v.closed then v.low * up ≤ point && point ≤ v.high * up
  else v.low * up < point && point < v.high * up

/-- The multiple of `10 ^ place` in the interval that is nearest to the number. -/
def nearest? (v : ReadingInterval) (place : Int) : Option Nat :=
  let num := v.value * Nat.pow 10 (-place).toNat
  let den := v.den * Nat.pow 10 place.toNat
  let below := num / den
  let isNearer := 2 * (num % den) < den
  match v.holds below place, v.holds (below + 1) place with
  | true, true => some (if isNearer then below else below + 1)
  | true, false => some below
  | false, true => some (below + 1)
  | false, false => none

/-- Tries `count` places downwards from `place`. -/
def search (v : ReadingInterval) : (count : Nat) → (place : Int) → Nat × Int
  | 0, place => (v.value * Nat.pow 10 (-place).toNat / (v.den * Nat.pow 10 place.toNat), place)
  | count + 1, place =>
    match v.nearest? place with
    | some digits => (digits, place)
    | none => search v count (place - 1)

/-- A place at which the number has no digit other than zero. -/
def topPlace (v : ReadingInterval) : Int :=
  ((Nat.toDigits 10 v.value).length : Int) - (Nat.toDigits 10 v.den).length + 1

end ReadingInterval

/-- Writes `digits * 10 ^ place` without an exponent. -/
def positional (digits : Nat) (place : Int) : String :=
  let text := toString (digits * Nat.pow 10 place.toNat)
  let after := (-place).toNat
  if after = 0 then text
  else
    let padded := "".pushn '0' (after + 1 - text.length) ++ text
    let chars := padded.toList
    String.ofList (chars.take (chars.length - after)) ++ "." ++ String.ofList (chars.drop (chars.length - after))

namespace Binary64

/-- The shortest decimal; a whole number has one zero after the point. -/
def render : Binary64 → String
  | nan => "NaN"
  | infinite negative => if negative then "-inf" else "inf"
  | finite negative m e =>
    let (digits, place) :=
      if m = 0 then (0, 0)
      else
        let v := ReadingInterval.ofNumber m e
        v.search 20 v.topPlace
    let text := positional digits place
    (if negative then "-" else "") ++ (if text.contains '.' then text else text ++ ".0")

end Binary64

end QueryPlan
