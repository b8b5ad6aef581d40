import QueryPlan.Toml.Quoted
import QueryPlan.Toml.Value

/-!
# Numbers of a TOML document

Integers have 64 bits and a sign. Underscores may stand between digits, and a decimal has no leading zero.
-/
namespace QueryPlan.Toml.Number

/-- Digits behind a first one; an underscore has to be followed by a digit. -/
def moreDigits (isDigit : Char → Bool) : Chars → Chars × Chars
  | '_' :: c :: cs =>
    if isDigit c then
      let (ds, rest) := moreDigits isDigit cs
      (c :: ds, rest)
    else ([], '_' :: c :: cs)
  | c :: cs =>
    if isDigit c then
      let (ds, rest) := moreDigits isDigit cs
      (c :: ds, rest)
    else ([], c :: cs)
  | [] => ([], [])

/-- One digit or more. -/
def digits (isDigit : Char → Bool) : Reader Chars
  | c :: cs =>
    if isDigit c then
      let (ds, rest) := moreDigits isDigit cs
      some (c :: ds, rest)
    else none
  | [] => none

/-- Digits without a leading zero. -/
def wholeDigits : Reader Chars
  | '0' :: cs => some (['0'], cs)
  | cs => digits Char.isDigit cs

/-- An optional sign; true stands for minus. -/
def sign : Chars → Bool × Chars
  | '-' :: cs => (true, cs)
  | '+' :: cs => (false, cs)
  | cs => (false, cs)

def valueOf (base : Nat) (ds : Chars) : Nat :=
  ds.foldl (fun n d => base * n + (Quoted.hexValue? d).getD 0) 0

def inRange (n : Int) : Bool := -Int.pow 2 63 ≤ n && n < Int.pow 2 63

/-- The digits of a number with a base mark, in that base. -/
def based : Reader (Nat × Chars)
  | '0' :: 'x' :: cs => (digits fun c => (Quoted.hexValue? c).isSome).map (16, ·) cs
  | '0' :: 'o' :: cs => (digits fun c => '0' ≤ c && c ≤ '7').map (8, ·) cs
  | '0' :: 'b' :: cs => (digits fun c => c = '0' || c = '1').map (2, ·) cs
  | _ => none

def integer : Reader Int := fun cs =>
  match cs with
  | '0' :: 'x' :: _ | '0' :: 'o' :: _ | '0' :: 'b' :: _ => do
    let ((base, ds), rest) ← based cs
    let n : Int := valueOf base ds
    if inRange n then return (n, rest) else none
  | _ => do
    let (negative, cs) := sign cs
    let (ds, rest) ← wholeDigits cs
    let n : Int := valueOf 10 ds
    let n := if negative then -n else n
    if inRange n then return (n, rest) else none

/-- The digits behind a point. -/
def fraction : Reader Chars
  | '.' :: cs => digits Char.isDigit cs
  | _ => none

/-- The power of ten behind the letter `e`. -/
def power : Reader Int
  | c :: cs => do
    if c ≠ 'e' ∧ c ≠ 'E' then none
    let (negative, cs) := sign cs
    let (ds, rest) ← digits Char.isDigit cs
    let n : Int := valueOf 10 ds
    return (if negative then -n else n, rest)
  | [] => none

/-- A decimal with a fraction, a power of ten or both. One too large for a float is refused unless it is
negative. -/
def decimal : Reader Binary64 := fun cs => do
  let (negative, cs) := sign cs
  let (whole, rest) ← wholeDigits cs
  let (part, scale, rest) ← match fraction rest with
    | some (part, rest) =>
      match power rest with
      | some (e, rest) => some (part, e, rest)
      | none => some (part, 0, rest)
    | none => (power rest).map fun (e, rest) => ([], e, rest)
  let x := Binary64.ofDecimal negative (valueOf 10 (whole ++ part)) (scale - part.length)
  if x = .infinite false then none else return (x, rest)

/-- Infinity or not-a-number, with an optional sign. -/
def special : Reader Binary64 := fun cs => do
  let (negative, cs) := sign cs
  match cs with
  | 'i' :: 'n' :: 'f' :: rest => return (.infinite negative, rest)
  | 'n' :: 'a' :: 'n' :: rest => return (.nan, rest)
  | _ => none

def float : Reader Binary64 := Reader.orElse decimal special

end QueryPlan.Toml.Number
