import QueryPlan.ColumnList
import QueryPlan.RowType

/-!
# Tables and their indexes

A table lists its columns by position and its indexes in catalog order. A clustered index determines how rows
are stored; an unclustered one maps key values to row ids.
-/
namespace QueryPlan

structure Index where
  id : IndexId
  name : String
  /-- The key columns, the leading one first. -/
  keys : ColumnList
  clustered : Bool
deriving DecidableEq, Inhabited

structure Table where
  id : TableId
  name : String
  columns : RowType
  indexes : List Index
deriving DecidableEq, Inhabited

/-- A column that a table of `width` columns does not have. -/
structure MissingColumn where
  table : String
  column : ColumnId
  width : Nat
deriving DecidableEq

def MissingColumn.message (e : MissingColumn) : String :=
  s!"Column {e.column} does not exist in `{e.table}` which has {e.width} columns"

namespace Table

def missing (t : Table) (column : ColumnId) : MissingColumn := ⟨t.name, column, t.columns.length⟩

/-- Each column with its id. -/
def positions (t : Table) : List (ColumnId × Field) := (ColumnList.iota t.columns.length).zip t.columns

def column (t : Table) (c : ColumnId) : Except MissingColumn Field :=
  match t.columns[c.toNat]? with
  | some field => .ok field
  | none => .error (t.missing c)

/-- The columns `cols` in that order, or the first of them that is missing. -/
def project (t : Table) (cols : ColumnList) : Except MissingColumn RowType := cols.mapM t.column

def index? (t : Table) (id : IndexId) : Option Index := t.indexes.find? (·.id = id)

def unclustered (t : Table) : List Index := t.indexes.filter (!·.clustered)

def clustered (t : Table) : List Index := t.indexes.filter (·.clustered)

/-- Reports the first key column of `index` that is not a column of the table. -/
def checkIndex (t : Table) (index : Index) : Except MissingColumn Unit :=
  let width := t.columns.length
  match index.keys.find? (width ≤ ·.toNat) with
  | some c => .error (t.missing c)
  | none => .ok ()

end Table

end QueryPlan
