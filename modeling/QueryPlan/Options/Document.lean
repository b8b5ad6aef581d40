import QueryPlan.Decimal.Shortest
import QueryPlan.Options.Basic
import QueryPlan.Text.Quoted
import QueryPlan.Toml.Parse

/-!
# Options in a TOML document

Every option has a default, so that the empty document holds the default options. Entries are read in order
and the first fault counts. The options of a rule may also be given as an array, in a fixed order: what is
missing keeps its default and what is too much is ignored.
-/
namespace QueryPlan

/-- Why a text holds no options. -/
inductive OptionsError
  | malformed
  | unknownField (name : String) (expected : List String)
  | invalidType (found : Toml) (expected : String)

namespace OptionsError

/-- What a value is called when it is not the expected one. -/
def describe : Toml → String
  | .string text => "string " ++ Text.quoted text
  | .integer n => s!"integer `{n}`"
  | .float x => s!"floating point `{x.render}`"
  | .boolean b => s!"boolean `{b}`"
  | .array _ | .tables _ => "sequence"
  | .moment | .table .. => "map"

def choice (names : List String) : String :=
  match names.map fun n => s!"`{n}`" with
  | [a, b] => a ++ " or " ++ b
  | [a] => a
  | quoted => "one of " ++ ", ".intercalate quoted

def message : String := "invalid rule config"

/-- What is wrong with the options; nothing is said about a text that is no document. -/
def cause? : OptionsError → Option String
  | malformed => none
  | unknownField name expected => some s!"unknown field `{name}`, expected {choice expected}"
  | invalidType found expected => some s!"invalid type: {describe found}, expected {expected}"

end OptionsError

/-- The value of a switch. -/
def Toml.toBool : Toml → Except OptionsError Bool
  | .boolean b => .ok b
  | found => .error (.invalidType found "a boolean")

namespace SemiJoinOptions

def fields : List String := ["early_exit", "intersect"]

def set (o : SemiJoinOptions) (entry : String × Toml) : Except OptionsError SemiJoinOptions :=
  if entry.1 = "early_exit" then entry.2.toBool.map fun b => { o with earlyExit := b }
  else if entry.1 = "intersect" then entry.2.toBool.map fun b => { o with intersect := b }
  else .error (.unknownField entry.1 fields)

def ofEntries (es : Toml.Entries) : Except OptionsError SemiJoinOptions := es.foldlM set {}

def ofElements (elements : List Toml) : Except OptionsError SemiJoinOptions :=
  ofEntries (fields.zip elements)

/-- A date or time counts as a map with one entry of this name. -/
def momentField : String := "$__toml_private_datetime"

def ofToml : Toml → Except OptionsError SemiJoinOptions
  | .table _ es => ofEntries es
  | .array elements => ofElements elements
  | .tables elements => ofElements (elements.map (Toml.table .headed))
  | .moment => .error (.unknownField momentField fields)
  | found => .error (.invalidType found "struct SemiJoinRuleConfig")

end SemiJoinOptions

namespace RuleOptions

def fields : List String := ["semijoin"]

def set (o : RuleOptions) (entry : String × Toml) : Except OptionsError RuleOptions :=
  if entry.1 = "semijoin" then (SemiJoinOptions.ofToml entry.2).map fun s => { o with semiJoin := s }
  else .error (.unknownField entry.1 fields)

/-- Reads the options from the text of a document. -/
def parse (text : String) : Except OptionsError RuleOptions :=
  match Toml.parse? text with
  | none => .error .malformed
  | some es => es.foldlM set {}

/-- Writes the options as a document. -/
def render (o : RuleOptions) : String :=
  s!"[semijoin]\nearly_exit = {o.semiJoin.earlyExit}\nintersect = {o.semiJoin.intersect}\n"

end RuleOptions

end QueryPlan
