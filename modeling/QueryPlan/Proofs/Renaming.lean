import QueryPlan.Plan.Shape
import QueryPlan.Proofs.Parameters
import QueryPlan.Rule
import QueryPlan.SemiJoinRule

/-!
# Plans with other parameters

A plan whose parameters all lie some places further on is the same plan in every other respect. It has the
same nodes under the same identities, the same row types, the same matches, and its probes are put together in
the same way: whether two parameters are equal does not change when both move by as much, even past the
largest one (`Id.advance_left_inj`). Where identities are of no interest, the nodes may be other ones
(`Plan.Counterpart`).
-/
namespace QueryPlan

namespace Id

variable {entity : Entity}

theorem advance_left_inj {i j : Id entity} {n : Nat} : i.advance n = j.advance n ↔ i = j := by
  constructor
  · intro h
    have same := congrArg toNat h
    have hi : i.toNat < 4294967296 := i.val.toNat_lt
    have hj : j.toNat < 4294967296 := j.val.toNat_lt
    apply ext_toNat
    simp only [toNat_advance] at same
    omega
  · rintro rfl
    rfl

theorem next_advance (i : Id entity) (n : Nat) : (i.advance n).next = i.next.advance n := by
  rw [next_eq_advance, next_eq_advance, advance_advance, advance_advance, Nat.add_comm]

/-- How many places after `i` the id `j` comes, past the largest id if need be. -/
def distance (i j : Id entity) : Nat := (j.val - i.val).toNat

@[simp] theorem advance_distance (i j : Id entity) : i.advance (i.distance j) = j := by
  obtain ⟨m⟩ := i
  obtain ⟨n⟩ := j
  simp [advance, distance, UInt32.add_comm m]

end Id

variable {d : Nat}

/-- The group whose parameters come `d` places after those of `g`. -/
def GroupParams.advance (d : Nat) (g : GroupParams) : GroupParams :=
  ⟨g.startRid.advance d, g.rowLimit.advance d⟩

@[simp] theorem GroupParams.advance_zero (g : GroupParams) : g.advance 0 = g := by simp [advance]

theorem GroupParams.advance_inj {g h : GroupParams} : g.advance d = h.advance d ↔ g = h := by
  obtain ⟨a, b⟩ := g
  obtain ⟨a', b'⟩ := h
  simp [advance, Id.advance_left_inj]

namespace Operator

/-- The operator with all its parameters `d` places further on. -/
def advance (d : Nat) : Operator → Operator
  | ixSearch source uniqueKey outer params => ixSearch source uniqueKey outer (params.map (.advance d))
  | ixMerge params ridLimit => ixMerge (params.map (.advance d)) (ridLimit.advance d)
  | ixIntersect params => ixIntersect (params.advance d)
  | op => op

@[simp] theorem advance_zero (op : Operator) : op.advance 0 = op := by
  have groups : GroupParams.advance 0 = id := funext GroupParams.advance_zero
  cases op <;> simp [advance, groups]

@[simp] theorem kind_advance (op : Operator) : (op.advance d).kind = op.kind := by cases op <;> rfl

@[simp] theorem isProbe_advance (op : Operator) : (op.advance d).isProbe = op.isProbe := by cases op <;> rfl

@[simp] theorem ownOutput?_advance (op : Operator) : (op.advance d).ownOutput? = op.ownOutput? := by
  cases op <;> rfl

@[simp] theorem output_advance (op : Operator) (leading : RowType) :
    (op.advance d).output leading = op.output leading := by
  simp [output]

theorem check_advance (op : Operator) (rows : List RowType) : (op.advance d).check rows = op.check rows := by
  cases op with
  | ixSearch | ixMerge => rcases rows with _ | ⟨row, _ | ⟨row', rows⟩⟩ <;> rfl
  | ixIntersect => unfold check; rfl
  | _ => rfl

theorem advance_injective : Function.Injective (advance d) := by
  have groups : Function.Injective (Option.map (GroupParams.advance d)) :=
    Option.map_injective fun _ _ => GroupParams.advance_inj.1
  intro op op'
  cases op <;> cases op' <;> simp [advance, groups.eq_iff, Id.advance_left_inj, GroupParams.advance_inj]

theorem advance_eq_self {op : Operator} (search : op.kind ≠ .ixSearch) (merge : op.kind ≠ .ixMerge)
    (intersect : op.kind ≠ .ixIntersect) : op.advance d = op := by
  cases op with
  | ixSearch => exact absurd rfl search
  | ixMerge => exact absurd rfl merge
  | ixIntersect => exact absurd rfl intersect
  | _ => rfl

theorem advance_eq_semiJoin_iff {op : Operator} {lhsKeys rhsKeys : ColumnList} :
    op.advance d = semiJoin lhsKeys rhsKeys ↔ op = semiJoin lhsKeys rhsKeys := by
  cases op <;> simp [advance]

theorem advance_eq_tableScan_iff {op : Operator} {s : TableScan} :
    op.advance d = tableScan s ↔ op = tableScan s := by
  cases op <;> simp [advance]

end Operator

namespace Plan

mutual
/-- The plan with all its parameters `d` places further on. -/
def advance (d : Nat) : Plan → Plan
  | node id op inputs => node id (op.advance d) (advanceAll d inputs)
def advanceAll (d : Nat) : List Plan → List Plan
  | [] => []
  | p :: ps => p.advance d :: advanceAll d ps
end

@[simp] theorem advanceAll_eq_map (ps : List Plan) : advanceAll d ps = ps.map (advance d) := by
  induction ps with
  | nil => rfl
  | cons p ps ih => rw [advanceAll, ih, List.map_cons]

@[simp] theorem advance_node (i : NodeId) (op : Operator) (inputs : List Plan) :
    (node i op inputs).advance d = node i (op.advance d) (inputs.map (advance d)) := by
  rw [advance, advanceAll_eq_map]

theorem advance_eq_node_iff {p : Plan} {i : NodeId} {op : Operator} {inputs : List Plan} :
    p.advance d = node i op inputs ↔
      ∃ op' inputs', p = node i op' inputs' ∧ op'.advance d = op ∧ inputs'.map (advance d) = inputs := by
  obtain ⟨j, f, xs⟩ := p
  simp only [advance_node, node.injEq]
  constructor
  · rintro ⟨rfl, rfl, rfl⟩
    exact ⟨f, xs, ⟨rfl, rfl, rfl⟩, rfl, rfl⟩
  · rintro ⟨_, _, ⟨rfl, rfl, rfl⟩, rfl, rfl⟩
    exact ⟨rfl, rfl, rfl⟩

@[simp] theorem id_advance (p : Plan) : (p.advance d).id = p.id := by
  cases p
  rw [advance_node]
  rfl

@[simp] theorem op_advance (p : Plan) : (p.advance d).op = p.op.advance d := by
  cases p
  rw [advance_node]
  rfl

@[simp] theorem inputs_advance (p : Plan) : (p.advance d).inputs = p.inputs.map (advance d) := by
  cases p
  rw [advance_node]
  rfl

@[simp] theorem kind_advance (p : Plan) : (p.advance d).kind = p.kind := by simp [kind]

@[simp] theorem same_advance (p q : Plan) : (p.advance d).same (q.advance d) = p.same q := by simp [same]

theorem advance_injective : Function.Injective (advance d) := by
  intro p
  induction p with
  | node i op xs ih =>
    rintro ⟨j, op', ys⟩ same
    simp only [advance_node, node.injEq] at same ⊢
    obtain ⟨ids, ops, inputs⟩ := same
    refine ⟨ids, Operator.advance_injective ops, ?_⟩
    rw [← List.forall₂_eq_eq_eq, List.forall₂_map_left_iff, List.forall₂_map_right_iff] at inputs
    rw [← List.forall₂_eq_eq_eq]
    exact forall₂_imp_of_mem inputs fun x hx y equal => ih x hx equal

@[simp] theorem preorder_advance (p : Plan) : (p.advance d).preorder = p.preorder.map (advance d) := by
  induction p with
  | node i op inputs ih =>
    rw [advance_node, preorder_node, preorder_node, List.map_cons, advance_node, List.flatMap_map,
      List.map_flatMap, List.flatMap_congr ih]

theorem descend?_advance (p : Plan) (path : List Nat) :
    (p.advance d).descend? path = (p.descend? path).map (advance d) := by
  induction path generalizing p with
  | nil => rfl
  | cons n path ih =>
    rw [descend?, descend?, inputs_advance, List.getElem?_map]
    cases p.inputs[n]? with
    | none => rfl
    | some x => exact ih x

/-- A plan without index operators has no parameters. -/
theorem advance_eq_self {p : Plan}
    (plain : p.Everywhere fun z => z.kind ≠ .ixSearch ∧ z.kind ≠ .ixMerge ∧ z.kind ≠ .ixIntersect) :
    p.advance d = p := by
  induction p with
  | node i op inputs ih =>
    obtain ⟨⟨search, merge, intersect⟩, below⟩ := everywhere_node.1 plain
    have same : inputs.map (advance d) = inputs :=
      (List.map_congr_left fun x hx => ih x hx (below x hx)).trans (List.map_id inputs)
    have alone : op.advance d = op := Operator.advance_eq_self search merge intersect
    rw [advance_node, alone, same]

/-! ## Counterparts -/

/-- `q` is `p` with its parameters `d` places further on. Whether the nodes of `q` have to be those of `p` as
well is up to `ids`. -/
inductive Counterpart (ids : Prop) (d : Nat) : Plan → Plan → Prop
  | node {i j : NodeId} {op : Operator} {xs ys : List Plan} (same : ids → j = i)
      (inputs : List.Forall₂ (Counterpart ids d) xs ys) :
      Counterpart ids d (node i op xs) (node j (op.advance d) ys)

variable {ids : Prop} {p q : Plan}

theorem counterpart_self (ids : Prop) (p : Plan) : Counterpart ids 0 p p := by
  induction p with
  | node i op inputs ih =>
    have root : Counterpart ids 0 (node i op inputs) (node i (op.advance 0) inputs) :=
      .node (fun _ => rfl) (List.forall₂_same.2 ih)
    rwa [Operator.advance_zero] at root

theorem counterpart_advance (ids : Prop) (p : Plan) : Counterpart ids d p (p.advance d) := by
  induction p with
  | node i op inputs ih =>
    rw [advance_node]
    exact .node (fun _ => rfl) (List.forall₂_map_right_iff.2 (List.forall₂_same.2 ih))

theorem Counterpart.eq_advance (h : Counterpart ids d p q) (all : ids) : q = p.advance d := by
  induction p generalizing q with
  | node i op xs ih =>
    cases h with
    | @node _ j _ _ ys same inputs =>
      have each : List.Forall₂ Eq (xs.map (advance d)) ys :=
        List.forall₂_map_left_iff.2 (forall₂_imp_of_mem inputs fun x hx y hy => (ih x hx hy).symm)
      rw [List.forall₂_eq_eq_eq] at each
      rw [advance_node, each, same all]

theorem Counterpart.shape_eq (h : Counterpart ids 0 p q) : q.shape = p.shape := by
  induction p generalizing q with
  | node i op xs ih =>
    cases h with
    | node same inputs =>
      rw [shape_node, shape_node, Operator.advance_zero,
        map_eq_map_of_forall₂ (forall₂_imp_of_mem inputs fun x hx y hy => ih x hx hy)]

theorem Counterpart.rowType_eq (h : Counterpart ids d p q) : q.rowType = p.rowType := by
  induction p generalizing q with
  | node i op xs ih =>
    cases h with
    | node same inputs =>
      rw [rowType_node, rowType_node, Operator.output_advance]
      cases inputs with
      | nil => rfl
      | cons head _ => exact congrArg op.output (ih _ List.mem_cons_self head)

theorem Counterpart.isProbe_eq (h : Counterpart ids d p q) : q.isProbe = p.isProbe := by
  cases h
  exact Operator.isProbe_advance _

theorem Counterpart.carries_eq (h : Counterpart ids d p q) (params : GroupParams) :
    q.carries (params.advance d) = p.carries params := by
  cases h with
  | @node i j op xs ys same inputs =>
    rcases op with _ | _ | _ | ⟨_ | g, limit⟩ | _ | _ | _ | _
    all_goals first
      | rfl
      | simp [carries, Operator.advance, GroupParams.advance_inj]

/-! ## Row id sources -/

theorem isSome_probe?_eq {xs ys : List Plan} (inputs : List.Forall₂ (Counterpart ids d) xs ys) :
    (probe? ys).isSome = (probe? xs).isSome := by
  cases inputs with
  | nil => rfl
  | cons head rest =>
    rw [probe?, probe?, List.head?_cons, List.head?_cons, Option.filter_some, Option.filter_some, head.isProbe_eq]
    split <;> rfl

theorem forall₂_residual {xs ys : List Plan} (inputs : List.Forall₂ (Counterpart ids d) xs ys) :
    List.Forall₂ (Counterpart ids d) (residual xs) (residual ys) := by
  unfold residual
  rw [isSome_probe?_eq inputs]
  split
  · cases inputs with
    | nil => exact .nil
    | cons _ rest => exact rest
  · exact inputs

end Plan

namespace Pattern

mutual
/-- A match binds the same operators, with their parameters further on. -/
theorem bind?_advance (c : Pattern) (p : Plan) :
    c.bind? (p.advance d) = (c.bind? p).map (List.map (Plan.advance d)) :=
  match c with
  | .operand kind children => by
    rw [bind?, bind?, Plan.kind_advance, Plan.inputs_advance, bindAll?_advance children p.inputs]
    split
    · cases bindAll? children p.inputs <;> simp
    · rfl
theorem bindAll?_advance (cs : List Pattern) (ps : List Plan) :
    bindAll? cs (ps.map (Plan.advance d)) = (bindAll? cs ps).map (List.map (Plan.advance d)) :=
  match cs, ps with
  | [], _ => rfl
  | _ :: _, [] => rfl
  | c :: cs, p :: ps => by
    rw [List.map_cons, bindAll?, bindAll?, bind?_advance c p, bindAll?_advance cs ps]
    cases c.bind? p <;> cases bindAll? cs ps <;> simp
end

end Pattern

namespace SemiJoinRule

theorem defers_eq {ids : Prop} {r r' : SemiJoinRule} (shape : r'.shape = r.shape) (s : TableScan)
    {xs ys : List Plan} (inputs : List.Forall₂ (Plan.Counterpart ids d) xs ys) :
    r'.defers s ys = r.defers s xs := by
  rw [defers, defers, shape, Plan.isSome_probe?_eq inputs, inputs.length_eq]

theorem existing_advance (r : SemiJoinRule) (s : TableScan) (inputs : List Plan) (bound : Option Plan) :
    r.existing s (inputs.map (Plan.advance d)) (bound.map (Plan.advance d)) =
      (r.existing s inputs bound).map (Option.map (Plan.advance d)) := by
  obtain ⟨shape, options⟩ := r
  cases shape with
  | scan => rfl
  | intersect | merge =>
    rcases bound with _ | probe
    · rfl
    rcases inputs with _ | ⟨first, rest⟩
    · rfl
    · simp only [existing, Option.map_some, List.map_cons, List.head?_cons, Plan.same_advance]
      split <;> rfl

end SemiJoinRule

/-- The alternative with all its parameters `d` places further on. -/
def Alternative.advance (d : Nat) (a : Alternative) : Alternative :=
  ⟨a.rule, a.matched.advance d, a.replacement.advance d⟩

end QueryPlan
