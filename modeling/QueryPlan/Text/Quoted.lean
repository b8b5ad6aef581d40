import QueryPlan.Text.Formless

/-!
# Quoted text

Text in double quotes. Quotes, backslashes and line breaks are escaped, and so is every character without a
form of its own.
-/
namespace QueryPlan.Text

/-- The escape that shows a character by its number. -/
def numbered (c : Char) : String := "\\u\x7b" ++ String.ofList (Nat.toDigits 16 c.toNat) ++ "\x7d"

def escaped (c : Char) : String :=
  if c = '"' then "\\\""
  else if c = '\\' then "\\\\"
  else if c = '\t' then "\\t"
  else if c = '\n' then "\\n"
  else if c = '\r' then "\\r"
  else if c = '\x00' then "\\0"
  else if c < ' ' ∨ c = '\x7f' ∨ isFormless c then numbered c
  else c.toString

def quoted (s : String) : String := "\"" ++ String.join (s.toList.map escaped) ++ "\""

end QueryPlan.Text
