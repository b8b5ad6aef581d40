import QueryPlan.Toml.Reader

/-!
# Strings of a TOML document

A basic string stands in double quotes and has escapes, a literal string stands in single quotes and has none.
Between three quotes each may run over several lines; a line break right after the opening quotes is dropped.
-/
namespace QueryPlan.Toml.Quoted

def hexValue? (c : Char) : Option Nat :=
  if c.isDigit then some (c.toNat - '0'.toNat)
  else if 'a' ≤ c ∧ c ≤ 'f' then some (c.toNat - 'a'.toNat + 10)
  else if 'A' ≤ c ∧ c ≤ 'F' then some (c.toNat - 'A'.toNat + 10)
  else none

/-- The character whose number is written in `count` hexadecimal digits. -/
def numbered (count : Nat) (cs : Chars) : Option (Chars × Chars) := do
  let digits ← (cs.take count).mapM hexValue?
  let n := digits.foldl (fun n d => 16 * n + d) 0
  if digits.length = count ∧ n.isValidChar then return ([Char.ofNat n], cs.drop count) else none

/-- The character an escape stands for. -/
def escape : Reader Chars
  | '\\' :: c :: cs =>
    match c with
    | 'b' => some (['\x08'], cs)
    | 't' => some (['\t'], cs)
    | 'n' => some (['\n'], cs)
    | 'f' => some (['\x0c'], cs)
    | 'r' => some (['\r'], cs)
    | '"' => some (['"'], cs)
    | '\\' => some (['\\'], cs)
    | 'u' => numbered 4 cs
    | 'U' => numbered 8 cs
    | _ => none
  | _ => none

/-- A character other than `quote` that stands for itself. -/
def plain (quote : Char) : Reader Chars
  | c :: cs => if isPlain c && c ≠ quote then some ([c], cs) else none
  | [] => none

/-- A character of a basic string that stands for itself. -/
def basicPlain : Reader Chars
  | '\\' :: _ => none
  | cs => plain '"' cs

def lineBreak : Reader Chars := newline.map fun _ => ['\n']

/-- A backslash at the end of a line, which hides all blanks and line ends that follow. -/
def hiddenBreak : Reader Chars
  | '\\' :: cs => do
    let (_, rest) ← newline (skipBlanks cs)
    return ([], (Reader.many (Reader.orElse newline fun
      | c :: cs => if isBlank c then some ((), cs) else none
      | [] => none) rest).2)
  | _ => none

/-- A quote that is not one of three in a row. -/
def loneQuote (quote : Char) : Reader Chars
  | c :: cs => if c = quote ∧ ¬ [quote, quote].isPrefixOf cs then some ([c], cs) else none
  | [] => none

def join (piece : Reader Chars) (cs : Chars) : Chars × Chars :=
  let (pieces, rest) := Reader.many piece cs
  (pieces.flatten, rest)

/-- A string on one line, up to the closing quote. -/
def single (quote : Char) (piece : Reader Chars) : Reader String
  | c :: cs => do
    if c ≠ quote then none
    let (text, rest) := join piece cs
    let (_, rest) ← Reader.word [quote] rest
    return (String.ofList text, rest)
  | [] => none

/-- A string between three quotes. Up to two quotes may stand right before the closing ones. -/
def triple (quote : Char) (piece : Reader Chars) : Reader String := fun cs => do
  let (_, cs) ← Reader.word [quote, quote, quote] cs
  let start := match newline cs with
    | some (_, rest) => rest
    | none => cs
  let (text, rest) := join (Reader.orElse piece (loneQuote quote)) start
  let (quotes, rest) := Reader.span (· = quote) rest
  if 3 ≤ quotes.length ∧ quotes.length ≤ 5 then return (String.ofList (text ++ quotes.drop 3), rest)
  else none

def basic : Reader String := single '"' (Reader.orElse basicPlain escape)

def literal : Reader String := single '\'' (plain '\'')

def basicLines : Reader String :=
  triple '"' (Reader.orElse (Reader.orElse basicPlain hiddenBreak) (Reader.orElse escape lineBreak))

def literalLines : Reader String := triple '\'' (Reader.orElse (plain '\'') lineBreak)

/-- A string of any kind. -/
def string : Reader String :=
  Reader.orElse (Reader.orElse basicLines basic) (Reader.orElse literalLines literal)

end QueryPlan.Toml.Quoted
