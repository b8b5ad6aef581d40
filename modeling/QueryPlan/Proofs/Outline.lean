import QueryPlan.Listing.Basic
import QueryPlan.Proofs.Nodes

/-!
# The outline of a listing

The outline of a plan is its listing with levels in place of indentations. The level of an operator is the
number of operators above it, without the filters; what is said of an operator stands one level below it.
Every entry but the first belongs to an operator one level up (`Plan.exists_outline_eq`). A level is two
columns: the lines of a listing are the entries of the outline, with the columns counted in 16 bits
(`Plan.lines_eq_map_entries`).
-/
namespace QueryPlan

/-- What a line is about. The line of a filter is the one with its predicate. -/
inductive LineKind
  | operator (kind : OperatorKind)
  | joinCond
  | columns
  | residualFilter
  | params
  | ridLimit
  | searchFlags
deriving DecidableEq

/-- Does the line describe the operator above it? -/
def LineKind.isDetail : LineKind → Bool
  | operator _ => false
  | _ => true

namespace LineContent

def kind : LineContent → LineKind
  | semiJoin => .operator .semiJoin
  | tableScan _ => .operator .tableScan
  | ixIntersect => .operator .ixIntersect
  | ixMerge => .operator .ixMerge
  | ixSearch _ _ => .operator .ixSearch
  | sort _ _ => .operator .sort
  | project _ => .operator .project
  | joinCond _ _ => .joinCond
  | columns _ => .columns
  | residualFilter => .residualFilter
  | params _ => .params
  | ridLimit _ => .ridLimit
  | searchFlags _ _ => .searchFlags
  | filter _ => .operator .filter

theorem isOperator_iff {c : LineContent} : c.isOperator = true ↔ ∃ k, c.kind = .operator k ∧ k ≠ .filter := by
  cases c <;> simp [isOperator, kind]

end LineContent

structure Entry where
  level : Nat
  content : LineContent

/-- The line that an entry is printed as. -/
def Entry.line (e : Entry) : Line := ⟨UInt16.ofNat (2 * e.level), e.content⟩

theorem Entry.toNat_indent_line (e : Entry) : e.line.indent.toNat = 2 * e.level % 65536 := by
  rw [line, UInt16.toNat_ofNat']

theorem ofNat_two_mul_add_two (level : Nat) :
    UInt16.ofNat (2 * level) + 2 = UInt16.ofNat (2 * (level + 1)) := by
  rw [Nat.mul_add, UInt16.ofNat_add]
  rfl

namespace Operator

theorem exists_eq_filter {op : Operator} (h : op.kind = .filter) : ∃ predicate, op = .filter predicate := by
  cases op with
  | filter predicate => exact ⟨predicate, rfl⟩
  | _ => cases h

theorem kind_heading (op : Operator) (rows : List RowType) : (op.heading rows).kind = .operator op.kind := by
  cases op <;> rfl

theorem isDetail_of_mem_details {op : Operator} {rows : List RowType} {d : LineContent} (h : d ∈ op.details rows) :
    d.kind.isDetail = true := by
  cases op with
  | semiJoin =>
    obtain rfl := List.mem_singleton.1 h
    rfl
  | tableScan s =>
    rcases List.mem_append.1 h with columns | residual
    · obtain ⟨cols, -, rfl⟩ := Option.map_eq_some_iff.1 (Option.mem_toList.1 columns)
      rfl
    · obtain ⟨-, rfl⟩ := List.mem_ite_nil_right.1 residual |>.imp_right List.mem_singleton.1
      rfl
  | ixSearch | ixMerge =>
    rcases List.mem_cons.1 h with rfl | params
    · rfl
    · obtain ⟨g, -, rfl⟩ := Option.map_eq_some_iff.1 (Option.mem_toList.1 params)
      rfl
  | ixIntersect =>
    obtain rfl := List.mem_singleton.1 h
    rfl
  | project | sort | filter => cases h

theorem isOperator_heading {op : Operator} (h : op.kind ≠ .filter) (rows : List RowType) :
    (op.heading rows).isOperator = true :=
  LineContent.isOperator_iff.2 ⟨_, kind_heading op rows, h⟩

theorem isOperator_heading_filter (predicate : Scalar) (rows : List RowType) :
    ((filter predicate).heading rows).isOperator = false := rfl

theorem isOperator_of_mem_details {op : Operator} {rows : List RowType} {d : LineContent}
    (h : d ∈ op.details rows) : d.isOperator = false := by
  rw [Bool.eq_false_iff]
  intro operator
  obtain ⟨k, named, -⟩ := LineContent.isOperator_iff.1 operator
  have detail := isDetail_of_mem_details h
  rw [named] at detail
  cases detail

end Operator

namespace Plan

/-- A checked plan is a filter over one checked plan or another operator over checked plans. -/
@[elab_as_elim]
theorem Checked.induction {motive : ∀ p : Plan, p.Checked → Prop}
    (filter : ∀ id predicate x (h : (Plan.node id (.filter predicate) [x]).Checked),
      motive x (h.input List.mem_cons_self) → motive _ h)
    (node : ∀ id op inputs (h : (Plan.node id op inputs).Checked), op.kind ≠ .filter →
      (∀ x (hx : x ∈ inputs), motive x (h.input hx)) → motive _ h)
    (p : Plan) (h : p.Checked) : motive p h := by
  induction p with
  | node id op inputs ih =>
    by_cases kind : op.kind = .filter
    · obtain ⟨predicate, rfl⟩ := Operator.exists_eq_filter kind
      obtain ⟨x, rfl⟩ := List.length_eq_one_iff.1 (h.root.length_inputs rfl)
      exact filter id predicate x h (ih x List.mem_cons_self _)
    · exact node id op inputs h kind fun x hx => ih x hx _

/-! ## Entries -/

mutual
/-- The entries of a plan at a level, each with the operator it belongs to. An operator belongs to the one it
feeds, which is `owner?` for the first, and a predicate to the operator at the top of what it filters. -/
def outline (owner? : Option Entry) (level : Nat) : Plan → List (Option Entry × Entry)
  | .node _ (.filter predicate) inputs =>
    let filtered := outlineAll owner? level inputs
    let last := ⟨level + 1, (Operator.filter predicate).heading (inputs.map rowType)⟩
    filtered ++ [(filtered.head?.map Prod.snd, last)]
  | .node _ op inputs =>
    let rows := inputs.map rowType
    let first := ⟨level, op.heading rows⟩
    (owner?, first) :: ((op.details rows).map (fun d => (some first, ⟨level + 1, d⟩)) ++
      outlineAll (some first) (level + 1) inputs)
def outlineAll (owner? : Option Entry) (level : Nat) : List Plan → List (Option Entry × Entry)
  | [] => []
  | p :: ps => p.outline owner? level ++ outlineAll owner? level ps
end

/-- The entries of a plan at a level. -/
def entries (level : Nat) (p : Plan) : List Entry := (p.outline none level).map Prod.snd

theorem outlineAll_eq_flatMap (owner? : Option Entry) (level : Nat) (ps : List Plan) :
    outlineAll owner? level ps = ps.flatMap (outline owner? level) := by
  induction ps with
  | nil => rfl
  | cons p ps ih => rw [outlineAll, ih, List.flatMap_cons]

theorem outline_filter (owner? : Option Entry) (level : Nat) (id : NodeId) (predicate : Scalar) (x : Plan) :
    (node id (.filter predicate) [x]).outline owner? level = x.outline owner? level ++
      [((x.outline owner? level).head?.map Prod.snd,
        ⟨level + 1, (Operator.filter predicate).heading [x.rowType]⟩)] := by
  simp [outline, outlineAll]

theorem outline_node (owner? : Option Entry) (level : Nat) (id : NodeId) {op : Operator} (inputs : List Plan)
    (h : op.kind ≠ .filter) :
    (node id op inputs).outline owner? level =
      (owner?, ⟨level, op.heading (inputs.map rowType)⟩) ::
        ((op.details (inputs.map rowType)).map
          (fun d => (some ⟨level, op.heading (inputs.map rowType)⟩, ⟨level + 1, d⟩)) ++
        inputs.flatMap (outline (some ⟨level, op.heading (inputs.map rowType)⟩) (level + 1))) := by
  cases op with
  | filter predicate => exact absurd rfl h
  | _ => simp [outline, outlineAll_eq_flatMap]

/-- The entries do not depend on the operator that the first one belongs to. -/
theorem map_snd_outline {p : Plan} (checked : p.Checked) (owner? : Option Entry) (level : Nat) :
    (p.outline owner? level).map Prod.snd = p.entries level := by
  induction p, checked using Checked.induction generalizing owner? level with
  | filter id predicate x _ ih =>
    rw [entries, outline_filter, outline_filter, List.map_append, List.map_append, ih, ih]
    rfl
  | node id op inputs _ kind _ =>
    rw [entries, outline_node owner? level id inputs kind, outline_node none level id inputs kind]
    rfl

theorem entries_filter (level : Nat) (id : NodeId) (predicate : Scalar) (x : Plan) :
    (node id (.filter predicate) [x]).entries level =
      x.entries level ++ [⟨level + 1, (Operator.filter predicate).heading [x.rowType]⟩] := by
  rw [entries, outline_filter, List.map_append]
  rfl

theorem entries_node (level : Nat) {id : NodeId} {op : Operator} {inputs : List Plan}
    (checked : (node id op inputs).Checked) (h : op.kind ≠ .filter) :
    (node id op inputs).entries level = ⟨level, op.heading (inputs.map rowType)⟩ ::
      ((op.details (inputs.map rowType)).map (Entry.mk (level + 1)) ++ inputs.flatMap (entries (level + 1))) := by
  rw [entries, outline_node none level id inputs h, List.map_cons, List.map_append, List.map_map,
    List.map_flatMap]
  congr 2
  exact List.flatMap_congr fun x hx => map_snd_outline (checked.input hx) _ _

/-- The outline begins with an operator at its own level. Every other entry belongs to an operator of the
outline one level up. -/
theorem exists_outline_eq {p : Plan} (checked : p.Checked) (owner? : Option Entry) (level : Nat) :
    ∃ first rest, p.outline owner? level = (owner?, first) :: rest ∧ first.level = level ∧
      first.content.isOperator = true ∧ ∀ x ∈ rest, ∃ o ∈ p.entries level, x.1 = some o ∧
        o.content.isOperator = true ∧ x.2.level = o.level + 1 := by
  induction p, checked using Checked.induction generalizing owner? level with
  | filter id predicate x checked ih =>
    obtain ⟨first, rest, listed, here, operator, owned⟩ := ih owner? level
    refine ⟨first, rest ++ [(some first, _)], by rw [outline_filter, listed]; rfl, here, operator, ?_⟩
    intro y hy
    rw [entries_filter]
    rcases List.mem_append.1 hy with hy | hy
    · obtain ⟨o, ho, belongs⟩ := owned y hy
      exact ⟨o, List.mem_append_left _ ho, belongs⟩
    · obtain rfl := List.mem_singleton.1 hy
      have top : first ∈ x.entries level := by
        rw [← map_snd_outline (checked.input List.mem_cons_self) owner?, listed]
        exact List.mem_cons_self
      exact ⟨first, List.mem_append_left _ top, rfl, operator, congrArg (· + 1) here.symm⟩
  | node id op inputs checked kind ih =>
    refine ⟨_, _, outline_node owner? level id inputs kind, rfl, Operator.isOperator_heading kind _, ?_⟩
    rw [entries_node level checked kind]
    intro y hy
    rcases List.mem_append.1 hy with detail | below
    · obtain ⟨d, -, rfl⟩ := List.mem_map.1 detail
      exact ⟨_, List.mem_cons_self, rfl, Operator.isOperator_heading kind _, rfl⟩
    · obtain ⟨x, hx, hy⟩ := List.mem_flatMap.1 below
      obtain ⟨first, rest, listed, here, -, owned⟩ := ih x hx (some ⟨level, op.heading (inputs.map rowType)⟩)
        (level + 1)
      rw [listed] at hy
      rcases List.mem_cons.1 hy with rfl | hy
      · exact ⟨_, List.mem_cons_self, rfl, Operator.isOperator_heading kind _, here⟩
      · obtain ⟨o, ho, belongs⟩ := owned y hy
        exact ⟨o, List.mem_cons_of_mem _ (List.mem_append_right _ (List.mem_flatMap_of_mem hx ho)), belongs⟩

/-- A listing prints the entries of the outline in order. -/
theorem lines_eq_map_entries {p : Plan} (checked : p.Checked) (level : Nat) :
    p.lines (UInt16.ofNat (2 * level)) = (p.entries level).map Entry.line := by
  induction p, checked using Checked.induction generalizing level with
  | filter id predicate x _ ih =>
    rw [lines_filter, entries_filter, List.map_append, List.flatMap_singleton, ih, ofNat_two_mul_add_two]
    rfl
  | node id op inputs checked kind ih =>
    rw [lines_node _ id op inputs kind, entries_node level checked kind, ofNat_two_mul_add_two, List.map_cons,
      List.map_append, List.map_map, List.map_flatMap]
    congr 2
    exact List.flatMap_congr fun x hx => ih x hx (level + 1)

theorem lines_zero {p : Plan} (checked : p.Checked) : p.lines 0 = (p.entries 0).map Entry.line :=
  lines_eq_map_entries checked 0

/-! ## Levels -/

mutual
/-- Every node in pre-order with its level: the number of nodes above it that are no filters, and `level`. -/
def levels (level : Nat) : Plan → List (Nat × Plan)
  | .node id op inputs =>
    (level, .node id op inputs) :: levelsAll (if op.kind = .filter then level else level + 1) inputs
def levelsAll (level : Nat) : List Plan → List (Nat × Plan)
  | [] => []
  | p :: ps => p.levels level ++ levelsAll level ps
end

theorem levelsAll_eq_flatMap (level : Nat) (ps : List Plan) :
    levelsAll level ps = ps.flatMap (levels level) := by
  induction ps with
  | nil => rfl
  | cons p ps ih => rw [levelsAll, ih, List.flatMap_cons]

theorem levels_filter (level : Nat) (id : NodeId) (predicate : Scalar) (x : Plan) :
    (node id (.filter predicate) [x]).levels level =
      (level, node id (.filter predicate) [x]) :: x.levels level := by
  simp [levels, levelsAll, Operator.kind]

theorem levels_node (level : Nat) (id : NodeId) {op : Operator} (inputs : List Plan) (h : op.kind ≠ .filter) :
    (node id op inputs).levels level =
      (level, node id op inputs) :: inputs.flatMap (levels (level + 1)) := by
  rw [levels, if_neg h, levelsAll_eq_flatMap]

theorem map_snd_levels (level : Nat) (p : Plan) : (p.levels level).map Prod.snd = p.preorder := by
  induction p generalizing level with
  | node id op inputs ih =>
    rw [levels, levelsAll_eq_flatMap, List.map_cons, List.map_flatMap, preorder_node]
    exact congrArg _ (List.flatMap_congr fun x hx => ih x hx _)

/-- The entry of an operator at a level. -/
def entryAt (z : Nat × Plan) : Entry := ⟨z.1, z.2.op.heading (z.2.inputs.map rowType)⟩

/-- The entries that name an operator are those of the nodes that are no filters, in pre-order. -/
theorem filter_isOperator_entries {p : Plan} (checked : p.Checked) (level : Nat) :
    (p.entries level).filter (·.content.isOperator) =
      ((p.levels level).filter (·.2.kind ≠ .filter)).map entryAt := by
  induction p, checked using Checked.induction generalizing level with
  | filter id predicate x _ ih =>
    rw [entries_filter, levels_filter, List.filter_append, ih]
    simp [Operator.isOperator_heading_filter, kind, Operator.kind]
  | node id op inputs checked kind ih =>
    have details : ((op.details (inputs.map rowType)).map (Entry.mk (level + 1))).filter
        (·.content.isOperator) = [] := by
      rw [List.filter_eq_nil_iff, List.forall_mem_map]
      intro d hd
      simp [Operator.isOperator_of_mem_details hd]
    have below : (inputs.flatMap (entries (level + 1))).filter (·.content.isOperator) =
        ((inputs.flatMap (levels (level + 1))).filter (·.2.kind ≠ .filter)).map entryAt := by
      rw [List.filter_flatMap, List.filter_flatMap, List.map_flatMap]
      exact List.flatMap_congr fun x hx => ih x hx (level + 1)
    have first : (⟨level, op.heading (inputs.map rowType)⟩ : Entry).content.isOperator = true :=
      Operator.isOperator_heading kind _
    have named : decide ((level, node id op inputs).2.kind ≠ .filter) = true := decide_eq_true kind
    rw [entries_node level checked kind, levels_node level id inputs kind, List.filter_cons, if_pos first,
      List.filter_append, details, below, List.filter_cons, if_pos named]
    rfl

theorem mem_entries_isOperator_iff {p : Plan} (checked : p.Checked) {level : Nat} {e : Entry} :
    e ∈ p.entries level ∧ e.content.isOperator = true ↔
      ∃ z ∈ p.levels level, z.2.kind ≠ .filter ∧ entryAt z = e := by
  have filtered : e ∈ p.entries level ∧ e.content.isOperator = true ↔
      e ∈ (p.entries level).filter (·.content.isOperator) := by rw [List.mem_filter]
  rw [filtered, filter_isOperator_entries checked, List.mem_map]
  simp only [List.mem_filter, decide_eq_true_eq, and_assoc]

end Plan

end QueryPlan
