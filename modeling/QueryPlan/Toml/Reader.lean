/-!
# Readers

A reader takes a value off the front of a text, or refuses it. Readers that are repeated are expected to take
at least one character each time, so that the length of the text bounds their number.
-/
namespace QueryPlan.Toml

abbrev Chars := List Char

/-- A value and the text behind it. -/
abbrev Reader (α : Type) := Chars → Option (α × Chars)

namespace Reader

variable {α β : Type}

/-- Takes the text `word` off the front. -/
def word : (word : Chars) → Reader Unit
  | [], cs => some ((), cs)
  | w :: ws, c :: cs => if w = c then word ws cs else none
  | _ :: _, [] => none

/-- Takes characters as long as `test` holds. -/
def span (test : Char → Bool) (cs : Chars) : Chars × Chars := (cs.takeWhile test, cs.dropWhile test)

/-- Reads values, at most as many as `bound` has characters. -/
def upTo (item : Reader α) : (bound : Chars) → Chars → List α × Chars
  | [], cs => ([], cs)
  | _ :: bound, cs =>
    match item cs with
    | none => ([], cs)
    | some (a, rest) =>
      let (as, rest) := upTo item bound rest
      (a :: as, rest)

/-- Reads as many values as possible. -/
def many (item : Reader α) (cs : Chars) : List α × Chars := upTo item cs cs

/-- Reads values with `separator` between them. -/
def separated (separator : Reader Unit) (item : Reader α) (cs : Chars) : List α × Chars :=
  match item cs with
  | none => ([], cs)
  | some (a, rest) =>
    let (as, rest) := many (fun cs => do
      let (_, cs) ← separator cs
      item cs) rest
    (a :: as, rest)

/-- The first reader that accepts. -/
def orElse (first second : Reader α) : Reader α := fun cs => (first cs).or (second cs)

def map (f : α → β) (item : Reader α) : Reader β := fun cs => (item cs).map fun (a, rest) => (f a, rest)

end Reader

/-! ## Blanks, line ends and comments -/

def isBlank (c : Char) : Bool := c = ' ' || c = '\t'

def skipBlanks (cs : Chars) : Chars := cs.dropWhile isBlank

/-- Is the character allowed where only control characters other than the tab are not? -/
def isPlain (c : Char) : Bool := c = '\t' || (' ' ≤ c && c ≠ '\x7f')

def newline : Reader Unit
  | '\n' :: cs | '\r' :: '\n' :: cs => some ((), cs)
  | _ => none

/-- Skips a comment up to the end of its line. -/
def skipComment : Chars → Chars
  | '#' :: cs => cs.dropWhile isPlain
  | cs => cs

/-- A line end, or the end of the text. -/
def lineEnd : Reader Unit
  | [] => some ((), [])
  | cs => newline cs

/-- What may follow on a line: blanks and a comment. -/
def lineTrail : Reader Unit := fun cs => lineEnd (skipComment (skipBlanks cs))

/-- One blank, line end or comment line between the elements of an array. -/
def gap : Reader Unit
  | c :: cs =>
    if isBlank c then some ((), cs)
    else if c = '#' then newline (skipComment (c :: cs))
    else newline (c :: cs)
  | [] => none

def skipGaps (cs : Chars) : Chars := (Reader.many gap cs).2

end QueryPlan.Toml
