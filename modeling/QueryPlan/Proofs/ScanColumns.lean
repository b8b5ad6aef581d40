import QueryPlan.Proofs.KeyColumns

/-!
# The columns of a scan

A scan maps each of its fields to a column of the table. With projected columns the column has the name and the type
of the field. A scan of all columns takes the position of a field for the id of its column, which keeps 16 bits of it.
So the fields from the 65537th on are mapped to the columns from the first on, and agree with them only where the
table repeats its columns (`Plan.columns_agree_iff_of_build`).
-/
namespace QueryPlan

theorem Table.column_eq_ok_iff {t : Table} {c : ColumnId} {f : Field} :
    t.column c = .ok f ↔ t.columns[c.toNat]? = some f := by
  unfold Table.column
  cases t.columns[c.toNat]? <;> simp

namespace TableScan

variable {s : TableScan}

theorem isSome_column?_iff (accepted : s.check = .ok ()) (pos : Nat) :
    (s.column? pos).isSome ↔ pos < s.rowType.length := by
  unfold column?
  cases projected : s.projected with
  | none => simp [rowType, projected]
  | some cols => simp [← (forall₂_rowType accepted projected).length_eq]

theorem column?_eq_some_iff_of_all (all : s.projected = none) {pos : Nat} {c : ColumnId} :
    s.column? pos = some c ↔ pos < s.table.columns.length ∧ ColumnId.ofNat pos = c := by
  simp [column?, all]

/-- The field with the column that field `pos` is mapped to. -/
def columnField (s : TableScan) (pos : Nat) : Nat := if s.projected.isSome then pos else pos % 65536

/-- The column that a field is mapped to exists, and it is that of a field of the scan. -/
theorem columns_eq_columnField (accepted : s.check = .ok ()) {pos : Nat} {c : ColumnId}
    (column : s.column? pos = some c) : s.table.columns[c.toNat]? = s.rowType[s.columnField pos]? := by
  cases projected : s.projected with
  | none =>
    obtain ⟨-, rfl⟩ := (column?_eq_some_iff_of_all projected).1 column
    simp [columnField, rowType, projected]
  | some cols =>
    simp only [column?, projected] at column
    obtain ⟨f, field, here⟩ :=
      exists_getElem?_left_of_forall₂ (forall₂_rowType accepted projected).flip column
    simp [columnField, projected, field, here]

theorem exists_column_eq (accepted : s.check = .ok ()) {pos : Nat} {c : ColumnId}
    (column : s.column? pos = some c) :
    ∃ f, s.table.column c = .ok f ∧ s.rowType[s.columnField pos]? = some f := by
  have bound : pos < s.rowType.length := (isSome_column?_iff accepted pos).1 (Option.isSome_iff_exists.2 ⟨c, column⟩)
  have inside : s.columnField pos < s.rowType.length := by
    unfold columnField
    split
    · exact bound
    · exact Nat.lt_of_le_of_lt (Nat.mod_le pos 65536) bound
  have field := List.getElem?_eq_getElem inside
  exact ⟨_, Table.column_eq_ok_iff.2 ((columns_eq_columnField accepted column).trans field), field⟩

/-- Every field is mapped to a column with its name and type. -/
def ColumnsAgree (s : TableScan) : Prop :=
  ∀ pos c, s.column? pos = some c → ∃ f, s.table.column c = .ok f ∧ s.rowType[pos]? = some f

/-- A scan of all columns is exact if the columns from the 65537th on repeat those from the first on. -/
theorem columnsAgree_iff (accepted : s.check = .ok ()) :
    s.ColumnsAgree ↔ (s.projected = none →
      ∀ pos < s.table.columns.length, s.table.columns[pos % 65536]? = s.table.columns[pos]?) := by
  constructor
  · intro agree all pos bound
    obtain ⟨f, column, field⟩ := agree pos _ ((column?_eq_some_iff_of_all all).2 ⟨bound, rfl⟩)
    rw [rowType, all] at field
    exact (Table.column_eq_ok_iff.1 column).trans field.symm
  · intro repeated pos c column
    obtain ⟨f, here, field⟩ := exists_column_eq accepted column
    refine ⟨f, here, ?_⟩
    cases projected : s.projected with
    | none =>
      obtain ⟨bound, -⟩ := (column?_eq_some_iff_of_all projected).1 column
      rw [← field]
      simpa [columnField, rowType, projected] using (repeated projected pos bound).symm
    | some cols => simpa [columnField, projected] using field

end TableScan

namespace Plan

/-- A scan that could be built maps exactly its fields to columns, each to that of a field. It is its own field for a
scan with projected columns, and for a scan of all columns as far as 16 bits tell the positions apart. -/
theorem columns_agree_iff_of_build {s : TableScan} {inputs : List Plan} {p : Plan}
    (built : (build (.tableScan s) inputs).Yields p) :
    (∀ pos, (s.column? pos).isSome ↔ pos < p.rowType.length) ∧
      (∀ pos c, s.column? pos = some c →
        ∃ f, s.table.column c = .ok f ∧ p.rowType[if s.projected.isSome then pos else pos % 65536]? = some f) ∧
      ((∀ pos c, s.column? pos = some c → ∃ f, s.table.column c = .ok f ∧ p.rowType[pos]? = some f) ↔
        (s.projected = none →
          ∀ pos < s.table.columns.length, s.table.columns[pos % 65536]? = s.table.columns[pos]?)) := by
  obtain ⟨accepted, id, rfl⟩ := yields_build built
  have row : (node id (.tableScan s) inputs).rowType = s.rowType := rowType_node ..
  rw [row]
  exact ⟨TableScan.isSome_column?_iff accepted, fun pos c => TableScan.exists_column_eq accepted,
    TableScan.columnsAgree_iff accepted⟩

/-- A scan that returns the second column twice. -/
def swappedPairs : TableScan := { TableScan.ofPairs 0 [] with projected := some (.ofNats [1, 0, 1]) }

theorem columns_agree_swappedPairs :
    ∃ p, (build (.tableScan swappedPairs) []).Yields p ∧ (swappedPairs.column? 2).isSome ∧
      ∀ pos c, swappedPairs.column? pos = some c →
        ∃ f, swappedPairs.table.column c = .ok f ∧ p.rowType[pos]? = some f := by
  have built : (build (.tableScan swappedPairs) []).Yields (.node 0 (.tableScan swappedPairs) []) :=
    ⟨{ nextNode := 0 }, { nextNode := 1 }, rfl⟩
  obtain ⟨mapped, -, agree⟩ := columns_agree_iff_of_build built
  exact ⟨_, built, (mapped 2).2 (by decide), agree.2 nofun⟩

/-- All columns of a table in which the second and the last, and no others, have the same name. -/
def wide (between : Nat) : TableScan :=
  ⟨⟨.ofNat 0, "wide", ⟨"x", .date⟩ :: ⟨"y", .date⟩ :: (List.replicate between ⟨"x", .date⟩ ++ [⟨"y", .date⟩]), []⟩,
    [], .ofNat 0, none, false⟩

theorem length_columns_wide (between : Nat) : (wide between).table.columns.length = between + 3 := by
  simp [wide]

theorem last_column_wide (between : Nat) :
    (wide between).table.columns[between + 2]? = some ⟨"y", .date⟩ := by
  simp [wide]

/-- The last of 65537 fields is mapped to the first column. -/
theorem columns_disagree_wide :
    ∃ p, (build (.tableScan (wide 65534)) []).Yields p ∧ p.rowType[65536]? = some ⟨"y", .date⟩ ∧
      (wide 65534).column? 65536 = some (.ofNat 0) ∧
      (wide 65534).table.column (.ofNat 0) = .ok ⟨"x", .date⟩ ∧
      (wide 65534).table.column (.ofNat 1) = .ok ⟨"y", .date⟩ := by
  have built : (build (.tableScan (wide 65534)) []).Yields (.node 0 (.tableScan (wide 65534)) []) :=
    ⟨{ nextNode := 0 }, { nextNode := 1 }, returns_build.2 ⟨rfl, rfl, rfl⟩⟩
  have inside : 65536 < (wide 65534).table.columns.length := by
    rw [length_columns_wide]
    decide
  have wraps : ColumnId.ofNat 65536 = ColumnId.ofNat 0 := rfl
  exact ⟨_, built, last_column_wide 65534, (TableScan.column?_eq_some_iff_of_all rfl).2 ⟨inside, wraps⟩, rfl, rfl⟩

end Plan

end QueryPlan
