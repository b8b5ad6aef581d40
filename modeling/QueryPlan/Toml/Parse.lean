import QueryPlan.Toml.Document
import QueryPlan.Toml.Moment
import QueryPlan.Toml.Number

/-!
# Reading a TOML document

Values nest at most 79 deep and a dotted key has at most 79 names. A text that is not a document has no
entries: where it goes wrong is not recorded.
-/
namespace QueryPlan.Toml

namespace Grammar

/-- How deep values nest and how many names a dotted key has at most. -/
def depthLimit : Nat := 79

def isBare (c : Char) : Bool := c.isAlphanum || c = '-' || c = '_'

def bareName : Reader String := fun cs =>
  let (name, rest) := Reader.span isBare cs
  if name.isEmpty then none else some (String.ofList name, rest)

/-- A name with blanks around it. -/
def name : Reader String := fun cs => do
  let (text, rest) ← Reader.orElse (Reader.orElse Quoted.basic Quoted.literal) bareName (skipBlanks cs)
  return (text, skipBlanks rest)

def key : Reader Key := fun cs => do
  let (names, rest) := Reader.separated (Reader.word ['.']) name cs
  if depthLimit < names.length then none
  return (⟨names.dropLast, ← names.getLast?⟩, rest)

/-- A key, the equals sign and a value. -/
def pair (value : Reader Toml) : Reader (Key × Toml) := fun cs => do
  let (k, cs) ← key cs
  let (_, cs) ← Reader.word ['='] cs
  let (v, cs) ← value (skipBlanks cs)
  return ((k, v), cs)

/-- The elements of an array behind its opening bracket. -/
def array (value : Reader Toml) : Reader Toml := fun cs => do
  let (elements, cs) := Reader.separated (Reader.word [',']) (fun cs => do
    let (v, rest) ← value (skipGaps cs)
    return (v, skipGaps rest)) cs
  let cs := match elements, cs with
    | _ :: _, ',' :: rest => rest
    | _, cs => cs
  let (_, cs) ← Reader.word [']'] (skipGaps cs)
  return (.array elements, cs)

/-- The entries of an inline table behind its opening brace. -/
def inlineTable (value : Reader Toml) : Reader Toml := fun cs => do
  let (pairs, cs) := Reader.separated (Reader.word [',']) (fun cs => do
    let (p, rest) ← pair value cs
    return (p, skipBlanks rest)) cs
  let entries ← Entries.insertAll? pairs []
  let (_, cs) ← Reader.word ['\x7d'] (skipBlanks cs)
  return (.table .inline entries, cs)

def boolean : Reader Bool
  | 't' :: 'r' :: 'u' :: 'e' :: cs => some (true, cs)
  | 'f' :: 'a' :: 'l' :: 's' :: 'e' :: cs => some (false, cs)
  | _ => none

def number : Reader Toml :=
  Reader.orElse (Moment.moment.map fun _ => .moment)
    (Reader.orElse (Number.float.map .float) (Number.integer.map .integer))

/-- A value without parts. -/
def atom : Reader Toml :=
  Reader.orElse (Quoted.string.map .string) (Reader.orElse (boolean.map .boolean) number)

/-- A value in which arrays and inline tables nest at most `depth` deep. -/
def value : (depth : Nat) → Reader Toml
  | 0 => atom
  | depth + 1 => fun cs =>
    match cs with
    | '[' :: rest => array (value depth) rest
    | '\x7b' :: rest => inlineTable (value depth) rest
    | _ => atom cs

/-- A header, from its first bracket to the end of its line. -/
def header : Reader Line
  | '[' :: '[' :: cs => do
    let (k, cs) ← key cs
    let (_, cs) ← Reader.word [']', ']'] cs
    let (_, cs) ← lineTrail cs
    return (.header k true, cs)
  | '[' :: cs => do
    let (k, cs) ← key cs
    let (_, cs) ← Reader.word [']'] cs
    let (_, cs) ← lineTrail cs
    return (.header k false, cs)
  | _ => none

/-- A line of a document with its line end, behind leading blanks. -/
def lineBody : Reader Line
  | [] => none
  | c :: cs =>
    if c = '#' then do
      let (_, rest) ← lineEnd (skipComment (c :: cs))
      return (.blank, rest)
    else if c = '[' then header (c :: cs)
    else if c = '\n' ∨ c = '\r' then do
      let (_, rest) ← newline (c :: cs)
      return (.blank, rest)
    else do
      let ((k, v), rest) ← pair (value depthLimit) (c :: cs)
      let (_, rest) ← lineTrail rest
      return (.pair k v, rest)

def line : Reader Line := fun cs => lineBody (skipBlanks cs)

/-- A byte order mark before the document is skipped. -/
def skipMark : Chars → Chars
  | '\uFEFF' :: cs => cs
  | cs => cs

end Grammar

/-- The entries of a document. -/
def parse? (text : String) : Option Entries :=
  let (lines, rest) := Reader.many Grammar.line (Grammar.skipMark text.toList)
  if (skipBlanks rest).isEmpty then ofLines? lines else none

end QueryPlan.Toml
