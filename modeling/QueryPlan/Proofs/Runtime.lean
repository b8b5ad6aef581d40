import Mathlib.Data.List.Dedup
import QueryPlan.Plan.Basic

/-!
# The rows a plan returns

A runtime supplies what plans leave open: the stored rows, the residual conditions of scans, the
conversion of values and the order of sorts. Given a runtime, every plan returns a list of rows.
Probes return row ids, one in each row, and a scan reads the rows whose ids its probe returns.
-/
namespace QueryPlan

/-- The values of the fields of a row; `none` is null. -/
abbrev Row (α : Type) := List (Option α)

namespace Row

variable {α : Type}

def value (row : Row α) (pos : Nat) : Option α := row[pos]?.getD none

def values (row : Row α) (cols : ColumnList) : Row α := cols.map fun c => row.value c.toNat

def Differ (cols : ColumnList) (a b : Row α) : Prop := a.values cols ≠ b.values cols

instance [DecidableEq α] (cols : ColumnList) : DecidableRel (Differ (α := α) cols) :=
  fun a b => inferInstanceAs (Decidable (a.values cols ≠ b.values cols))

/-- Of the rows that do not differ on the columns one is kept. -/
theorem exists_mem_pwFilter [DecidableEq α] {cols : ColumnList} {rows : List (Row α)} {row : Row α}
    (mem : row ∈ rows) : ∃ kept ∈ rows.pwFilter (Differ cols), kept.values cols = row.values cols := by
  by_contra none
  have apart : ∀ kept ∈ rows.pwFilter (Differ cols), Differ cols row kept :=
    fun kept listed same => none ⟨kept, listed, same.symm⟩
  have splits {x y z : Row α} (h : Differ cols x z) : Differ cols x y ∨ Differ cols y z := by
    by_contra both
    obtain ⟨xy, yz⟩ := not_or.1 both
    exact h ((not_not.1 xy).trans (not_not.1 yz))
  exact (List.forall_mem_pwFilter (R := Differ cols) splits row rows).1 apart row mem rfl

end Row

/-- The fields of the two sides that a semijoin compares. -/
structure JoinCondition where
  lhsKeys : ColumnList
  rhsKeys : ColumnList
  lhsRow : RowType
  rhsRow : RowType

structure Runtime (α : Type) where
  /-- The rows of a table as a connection sees them, each with its id, in row id order. -/
  stored : ConnectionId → Table → List (Nat × Row α)
  ascending : ∀ connection table, (stored connection table).Pairwise (·.1 < ·.1)
  /-- Does a stored row pass the residual condition of a scan over these residual inputs? -/
  passes : TableScan → List Plan → Nat × Row α → Bool
  truth : Bool → α
  truth_ne : truth true ≠ truth false
  rid : Nat → α
  rid_injective : Function.Injective rid
  /-- Converts a value from one type to another; null stays null and nothing else becomes null. -/
  convert : SqlType → SqlType → α → α
  convert_self : ∀ type x, convert type type x = x
  arrange : ColumnList → List (Row α) → List (Row α)
  arrange_perm : ∀ keys rows, (arrange keys rows).Perm rows
  /-- Sorts and keeps one row for every value of the sort keys. -/
  arrangeDistinct : ColumnList → List (Row α) → List (Row α)
  subset_of_arrangeDistinct : ∀ keys rows, arrangeDistinct keys rows ⊆ rows
  exists_mem_arrangeDistinct : ∀ keys rows, ∀ row ∈ rows,
    ∃ kept ∈ arrangeDistinct keys rows, kept.values keys = row.values keys
  nodup_arrangeDistinct : ∀ keys rows, ((arrangeDistinct keys rows).map (Row.values · keys)).Nodup

/-- The fields that a scan returns of a stored row. -/
def TableScan.output {α : Type} (s : TableScan) (row : Row α) : Row α :=
  match s.projected with
  | none => row
  | some cols => row.values cols

/-- The key columns of the index that the id names. -/
def IndexSource.keys (source : IndexSource) : ColumnList :=
  (source.table.index? source.index).elim [] Index.keys

namespace Runtime

variable {α : Type} [DecidableEq α] (rt : Runtime α)

/-- The conjunction of three-valued conditions. -/
def conjoin (terms : List (Option α)) : Option α :=
  if some (rt.truth false) ∈ terms then some (rt.truth false)
  else if ∀ t ∈ terms, t = some (rt.truth true) then some (rt.truth true)
  else none

mutual
/-- The value of an expression on a row. -/
def eval (row : Row α) : Scalar → Option α
  | .field pos _ => row.value pos
  | .cast e type => (eval row e).map (rt.convert e.type type)
  | .isNotNull e => some (rt.truth (eval row e).isSome)
  | .conj es => rt.conjoin (evalAll row es)
def evalAll (row : Row α) : List Scalar → List (Option α)
  | [] => []
  | e :: es => eval row e :: evalAll row es
end

/-- Do the two rows have equal values, neither of them null, for join key `i`? The value on the
right is compared after its conversion to the type on the left. -/
def agree (on : JoinCondition) (l r : Row α) (i : Nat) : Bool :=
  match on.lhsKeys[i]?, on.rhsKeys[i]? with
  | some a, some b =>
    match on.lhsRow.type? a.toNat, on.rhsRow.type? b.toNat, l.value a.toNat, r.value b.toNat with
    | some target, some source, some x, some y => x = rt.convert source target y
    | _, _, _, _ => false
  | _, _ => false

/-- Does some row on the right agree with the row on the left on these join keys? -/
def joins (on : JoinCondition) (positions : List Nat) (rs : List (Row α)) (l : Row α) : Bool :=
  rs.any fun r => positions.all (rt.agree on l r)

/-- The stored rows that an index search finds for the search keys: those whose leading index keys,
as many as a search key has fields, have the values of some search key. -/
def found (source : IndexSource) (keys : List (Row α)) : List (Nat × Row α) :=
  (rt.stored source.connection source.table).filter fun t =>
    keys.any fun key => t.2.values (source.keys.take key.length) = key

/-- The one-field row of a row id. -/
def ridRow (id : Nat) : Row α := [some (rt.rid id)]

/-- The stored rows that a scan reads. -/
def scanned (s : TableScan) (inputs : List (Plan × List (Row α))) : List (Nat × Row α) :=
  (rt.stored s.connection s.table).filter fun t =>
    (inputs.head?.filter (·.1.isProbe)).all (fun probe => rt.ridRow t.1 ∈ probe.2) &&
      rt.passes s (Plan.residual (inputs.map Prod.fst)) t

/-- The rows that an operator returns over inputs that return the given rows. -/
def operate : Operator → List (Plan × List (Row α)) → List (Row α)
  | .semiJoin lhsKeys rhsKeys, [(lhs, ls), (rhs, rs)] =>
    ls.filter (rt.joins ⟨lhsKeys, rhsKeys, lhs.rowType, rhs.rowType⟩ (List.range lhsKeys.length) rs)
  | .tableScan s, inputs => (rt.scanned s inputs).map fun t => s.output t.2
  | .ixSearch source _ _ _, [(_, keys)] => (rt.found source keys).map fun t => rt.ridRow t.1
  | .ixMerge _ _, [(_, rids)] => rids
  | .ixIntersect _, (_, rids) :: others => rids.filter fun rid => others.all fun other => rid ∈ other.2
  | .project fields, [(_, rows)] => rows.map fun row => fields.map fun f => rt.eval row f.expr
  | .sort keys true, [(_, rows)] => rt.arrangeDistinct keys rows
  | .sort keys false, [(_, rows)] => rt.arrange keys rows
  | .filter predicate, [(_, rows)] => rows.filter fun row => rt.eval row predicate = some (rt.truth true)
  | _, _ => []

mutual
/-- The rows that a plan returns. -/
def rows : Plan → List (Row α)
  | .node _ op inputs => rt.operate op (rowsOfEach inputs)
def rowsOfEach : List Plan → List (Plan × List (Row α))
  | [] => []
  | p :: ps => (p, rows p) :: rowsOfEach ps
end

/-- Is the row id among those that the probe returns? -/
def Selects (probe : Plan) (id : Nat) : Prop := rt.ridRow id ∈ rt.rows probe

instance (probe : Plan) (id : Nat) : Decidable (rt.Selects probe id) :=
  inferInstanceAs (Decidable (rt.ridRow id ∈ rt.rows probe))

@[simp] theorem rowsOfEach_eq_map (ps : List Plan) :
    rt.rowsOfEach ps = ps.map fun p => (p, rt.rows p) := by
  induction ps with
  | nil => rfl
  | cons p ps ih => rw [rowsOfEach, ih, List.map_cons]

@[simp] theorem evalAll_eq_map (row : Row α) (es : List Scalar) :
    rt.evalAll row es = es.map (rt.eval row) := by
  induction es with
  | nil => rfl
  | cons e es ih => rw [evalAll, ih, List.map_cons]

theorem rows_node (i : NodeId) (op : Operator) (inputs : List Plan) :
    rt.rows (.node i op inputs) = rt.operate op (inputs.map fun p => (p, rt.rows p)) := by
  rw [rows, rowsOfEach_eq_map]

omit [DecidableEq α] in
theorem ridRow_injective : Function.Injective rt.ridRow := by
  intro a b h
  exact rt.rid_injective (Option.some.inj (List.cons.inj h).1)

/-- The rows a scan reads: all that its probe selects, if it has one, and that pass its residual
condition. -/
def read (s : TableScan) (inputs : List Plan) : List (Nat × Row α) :=
  (rt.stored s.connection s.table).filter fun t =>
    (Plan.probe? inputs).all (fun probe => rt.Selects probe t.1) && rt.passes s (Plan.residual inputs) t

theorem rows_tableScan (i : NodeId) (s : TableScan) (inputs : List Plan) :
    rt.rows (.node i (.tableScan s) inputs) = (rt.read s inputs).map fun t => s.output t.2 := by
  have probe : (inputs.map fun p => (p, rt.rows p)).head?.filter (·.1.isProbe) =
      (Plan.probe? inputs).map fun p => (p, rt.rows p) := by
    cases inputs with
    | nil => rfl
    | cons p ps =>
      cases h : p.isProbe <;> simp [Plan.probe?, Option.filter, h]
  rw [rows_node, operate, scanned, probe]
  simp only [read, Selects, Function.comp_def, Option.all_map, List.map_map, List.map_id']
  rfl

theorem selects_ixMerge {i : NodeId} {params : Option GroupParams} {limit : ParamId} {search : Plan}
    {id : Nat} :
    rt.Selects (.node i (.ixMerge params limit) [search]) id ↔ rt.Selects search id := by
  simp [Selects, rows_node, operate]

theorem selects_ixIntersect {i : NodeId} {params : GroupParams} {merges : List Plan} {id : Nat}
    (inhabited : merges ≠ []) :
    rt.Selects (.node i (.ixIntersect params) merges) id ↔ ∀ m ∈ merges, rt.Selects m id := by
  cases merges with
  | nil => exact absurd rfl inhabited
  | cons m ms => simp [Selects, rows_node, operate]

/-- A search selects the ids of the rows it finds. -/
theorem selects_ixSearch {i : NodeId} {source : IndexSource} {unique outer : Bool}
    {params : Option GroupParams} {keys : Plan} {id : Nat} :
    rt.Selects (.node i (.ixSearch source unique outer params) [keys]) id ↔
      ∃ row, (id, row) ∈ rt.found source (rt.rows keys) := by
  simp only [Selects, rows_node, operate, List.map_cons, List.map_nil, List.mem_map]
  constructor
  · rintro ⟨⟨id', row⟩, mem, eq⟩
    obtain rfl := rt.ridRow_injective eq
    exact ⟨row, mem⟩
  · rintro ⟨row, mem⟩
    exact ⟨(id, row), mem, rfl⟩

omit [DecidableEq α] in
/-- A stored row is determined by its id. -/
theorem eq_of_mem_stored {connection : ConnectionId} {table : Table} {t u : Nat × Row α}
    (ht : t ∈ rt.stored connection table) (hu : u ∈ rt.stored connection table) (h : t.1 = u.1) :
    t = u := by
  have ids : ((rt.stored connection table).map Prod.fst).Nodup :=
    List.pairwise_map.2 ((rt.ascending connection table).imp fun lt => Nat.ne_of_lt lt)
  exact List.inj_on_of_nodup_map ids ht hu h

/-- A runtime over numbers in which every connection sees the same rows, numbered from zero. Its
scans have no residual conditions, its conversions change no value and its sorts keep the order
there is. -/
def ofContents (contents : Table → List (Row Nat)) : Runtime Nat where
  stored _ t := (contents t).zipIdx.map Prod.swap
  ascending _ t := by
    refine List.pairwise_map.1 ?_
    simpa [Function.comp_def, List.zipIdx_map_snd] using List.pairwise_lt_range'
  passes _ _ _ := true
  truth := Bool.toNat
  truth_ne := by decide
  rid := id
  rid_injective := Function.injective_id
  convert _ _ x := x
  convert_self _ _ := rfl
  arrange _ rows := rows
  arrange_perm _ rows := .refl rows
  arrangeDistinct keys := List.pwFilter (Row.Differ keys)
  subset_of_arrangeDistinct _ rows := List.pwFilter_subset rows
  exists_mem_arrangeDistinct _ _ _ mem := Row.exists_mem_pwFilter mem
  nodup_arrangeDistinct _ rows := List.pairwise_map.2 (List.pairwise_pwFilter rows)

end Runtime

end QueryPlan
