import QueryPlan.Toml.Reader

/-!
# Dates and times of a TOML document

A date, a time of day, or both with an optional offset. Only their validity matters here: nothing reads them.
-/
namespace QueryPlan.Toml.Moment

/-- A number of exactly `count` digits. -/
def number (count : Nat) : Reader Nat := fun cs =>
  let ds := cs.take count
  if ds.length = count ∧ ds.all Char.isDigit then
    some (ds.foldl (fun n d => 10 * n + (d.toNat - '0'.toNat)) 0, cs.drop count)
  else none

/-- A number of two digits within bounds. -/
def field (low high : Nat) : Reader Nat := fun cs => do
  let (n, rest) ← number 2 cs
  if low ≤ n ∧ n ≤ high then return (n, rest) else none

def isLeap (year : Nat) : Bool := year % 4 = 0 && (year % 100 ≠ 0 || year % 400 = 0)

def daysIn (year month : Nat) : Nat :=
  if month = 2 then if isLeap year then 29 else 28
  else if month = 4 ∨ month = 6 ∨ month = 9 ∨ month = 11 then 30
  else 31

def date : Reader Unit := fun cs => do
  let (year, cs) ← number 4 cs
  let (_, cs) ← Reader.word ['-'] cs
  let (month, cs) ← field 1 12 cs
  let (_, cs) ← Reader.word ['-'] cs
  let (_, cs) ← field 1 (daysIn year month) cs
  return ((), cs)

/-- Hours and minutes. -/
def clock : Reader Unit := fun cs => do
  let (_, cs) ← field 0 23 cs
  let (_, cs) ← Reader.word [':'] cs
  let (_, cs) ← field 0 59 cs
  return ((), cs)

/-- A time of day with seconds, which may be a leap second and may have a fraction. -/
def time : Reader Unit := fun cs => do
  let (_, cs) ← clock cs
  let (_, cs) ← Reader.word [':'] cs
  let (_, cs) ← field 0 60 cs
  match cs with
  | '.' :: d :: rest => return ((), if d.isDigit then rest.dropWhile Char.isDigit else cs)
  | _ => return ((), cs)

def offset : Reader Unit
  | 'Z' :: cs | 'z' :: cs => some ((), cs)
  | '+' :: cs | '-' :: cs => clock cs
  | _ => none

/-- Reads on if `next` accepts what follows. -/
def optionally (next : Reader Unit) (cs : Chars) : Chars :=
  match next cs with
  | some (_, rest) => rest
  | none => cs

/-- A time behind a date: the separator, the time and an optional offset. -/
def timeOfDate : Reader Unit
  | c :: cs => do
    if c ≠ 'T' ∧ c ≠ 't' ∧ c ≠ ' ' then none
    let (_, cs) ← time cs
    return ((), optionally offset cs)
  | [] => none

def moment : Reader Unit := Reader.orElse (fun cs => do
  let (_, cs) ← date cs
  return ((), optionally timeOfDate cs)) time

end QueryPlan.Toml.Moment
