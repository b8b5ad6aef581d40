/-!
# SQL types

Two columns have the same type iff the types are equal, precision, scale and length included. Types are
ordered by the list of constructors below, then by their parameters.
-/
namespace QueryPlan

inductive SqlType
  | boolean
  | integer
  | bigint
  | ubigint
  | double
  | decimal (precision scale : UInt8)
  | char (length : UInt32)
  | varchar (length : UInt32)
  | date
  | timestamp
deriving DecidableEq, Ord, Inhabited

namespace SqlType

def render : SqlType → String
  | boolean => "BOOLEAN"
  | integer => "INTEGER"
  | bigint => "BIGINT"
  | ubigint => "UBIGINT"
  | double => "DOUBLE"
  | decimal precision scale => s!"DECIMAL({precision}, {scale})"
  | char length => s!"CHAR({length})"
  | varchar length => s!"VARCHAR({length})"
  | date => "DATE"
  | timestamp => "TIMESTAMP"

def renderAll (types : List SqlType) : String := ", ".intercalate (types.map render)

def sort (types : List SqlType) : List SqlType := types.mergeSort fun a b => (compare a b).isLE

end SqlType

end QueryPlan
