import QueryPlan.Proofs.Outline
import QueryPlan.Proofs.Rewriting

/-!
# Reading a listing back

The kinds of the lines of a listing and their indentations determine the kinds of the operators of the plan and
how the operators are put together (`Plan.lines_determine_kinds`). A filter has no line of its own place, so the
argument goes by blocks. Below the line of an operator come its details, the lines of its inputs and the lines of
the filters on top of it; each of these is an entry one level deeper and deeper ones after it. A list of such blocks
is determined by its concatenation, and the blocks of the inputs are those that begin with an operator which is not a
filter.
-/
namespace QueryPlan

/-- A level and the kind of a line there. -/
abbrev Mark := Nat × LineKind

namespace Mark

/-- A mark at a level and deeper ones after it. -/
def Block (level : Nat) (b : List Mark) : Prop :=
  ∃ kind rest, b = (level, kind) :: rest ∧ ∀ m ∈ rest, level < m.1

theorem block_singleton (level : Nat) (kind : LineKind) : Block level [(level, kind)] :=
  ⟨kind, [], rfl, List.forall_mem_nil _⟩

theorem Block.le_of_mem {level : Nat} {b : List Mark} (block : Block level b) {m : Mark} (h : m ∈ b) :
    level ≤ m.1 := by
  obtain ⟨kind, rest, rfl, deeper⟩ := block
  rcases List.mem_cons.1 h with rfl | h
  · exact Nat.le_refl level
  · exact Nat.le_of_lt (deeper m h)

/-- A mark over blocks that are one level deeper makes a block. -/
theorem block_cons_flatten {level : Nat} (kind : LineKind) {bs : List (List Mark)}
    (blocks : ∀ b ∈ bs, Block (level + 1) b) : Block level ((level, kind) :: bs.flatten) := by
  refine ⟨kind, _, rfl, fun m hm => ?_⟩
  obtain ⟨b, hb, hm⟩ := List.mem_flatten.1 hm
  exact (blocks b hb).le_of_mem hm

/-- What follows a block at the same level does not continue it. -/
theorem takeWhile_flatten_eq_nil {level : Nat} {bs : List (List Mark)} (blocks : ∀ b ∈ bs, Block level b) :
    bs.flatten.takeWhile (level < ·.1) = [] := by
  cases bs with
  | nil => rfl
  | cons b bs =>
    obtain ⟨kind, rest, rfl, -⟩ := blocks b List.mem_cons_self
    simp

/-- The marks that are deeper than the first end where the next block begins. -/
theorem takeWhile_append_flatten {level : Nat} {rest : List Mark} {bs : List (List Mark)}
    (deeper : ∀ m ∈ rest, level < m.1) (blocks : ∀ b ∈ bs, Block level b) :
    (rest ++ bs.flatten).takeWhile (level < ·.1) = rest := by
  rw [List.takeWhile_append_of_pos (by simpa using deeper), takeWhile_flatten_eq_nil blocks, List.append_nil]

/-- A list of blocks is determined by its concatenation. -/
theorem eq_of_flatten_eq {level : Nat} {bs cs : List (List Mark)} (hbs : ∀ b ∈ bs, Block level b)
    (hcs : ∀ c ∈ cs, Block level c) (h : bs.flatten = cs.flatten) : bs = cs := by
  induction bs generalizing cs with
  | nil =>
    cases cs with
    | nil => rfl
    | cons c cs =>
      obtain ⟨kind, rest, rfl, -⟩ := hcs c List.mem_cons_self
      cases h
  | cons b bs ih =>
    rw [List.forall_mem_cons] at hbs
    obtain ⟨⟨kind, rest, rfl, deeper⟩, hbs⟩ := hbs
    cases cs with
    | nil => cases h
    | cons c cs =>
      rw [List.forall_mem_cons] at hcs
      obtain ⟨⟨kind', rest', rfl, deeper'⟩, hcs⟩ := hcs
      simp only [List.flatten_cons, List.cons_append, List.cons.injEq, Prod.mk.injEq, true_and] at h
      obtain ⟨rfl, h⟩ := h
      have rests := congrArg (List.takeWhile (level < ·.1)) h
      rw [takeWhile_append_flatten deeper hbs, takeWhile_append_flatten deeper' hcs] at rests
      subst rests
      rw [ih hbs hcs (List.append_cancel_left h)]

end Mark

namespace Plan

/-- The levels of the entries and the kinds of their lines. -/
def marks (level : Nat) (p : Plan) : List Mark := (p.entries level).map fun e => (e.level, e.content.kind)

theorem marks_filter (level : Nat) (id : NodeId) (predicate : Scalar) (x : Plan) :
    (node id (.filter predicate) [x]).marks level = x.marks level ++ [(level + 1, .operator .filter)] := by
  rw [marks, entries_filter, List.map_append]
  rfl

/-- The blocks below the line of an operator that is no filter: its details and its inputs. -/
def blocks (level : Nat) (op : Operator) (inputs : List Plan) : List (List Mark) :=
  (op.details (inputs.map rowType)).map (fun d => [(level, d.kind)]) ++ inputs.map (marks level)

theorem marks_node (level : Nat) {id : NodeId} {op : Operator} {inputs : List Plan}
    (checked : (node id op inputs).Checked) (h : op.kind ≠ .filter) :
    (node id op inputs).marks level = (level, .operator op.kind) :: (blocks (level + 1) op inputs).flatten := by
  rw [marks, entries_node level checked h, List.map_cons, List.map_append, List.map_map, List.map_flatMap, blocks,
    List.flatten_append, ← List.flatMap_def, ← List.flatMap_def, ← List.map_eq_flatMap, Operator.kind_heading]
  rfl

theorem block_of_mem_blocks {level : Nat} {op : Operator} {inputs : List Plan}
    (each : ∀ x ∈ inputs, Mark.Block level (x.marks level)) : ∀ b ∈ blocks level op inputs, Mark.Block level b := by
  rw [blocks, List.forall_mem_append, List.forall_mem_map, List.forall_mem_map]
  exact ⟨fun d _ => Mark.block_singleton level d.kind, each⟩

/-- A listing begins with an operator that is no filter and goes on with blocks. -/
theorem exists_marks_eq {p : Plan} (checked : p.Checked) (level : Nat) :
    ∃ (k : OperatorKind) (bs : List (List Mark)), k ≠ .filter ∧ p.marks level = (level, .operator k) :: bs.flatten ∧
      ∀ b ∈ bs, Mark.Block (level + 1) b := by
  induction p, checked using Checked.induction generalizing level with
  | filter id predicate x _ ih =>
    obtain ⟨k, bs, named, listed, blocks⟩ := ih level
    refine ⟨k, bs ++ [[(level + 1, .operator .filter)]], named, ?_, ?_⟩
    · rw [marks_filter, listed, List.flatten_concat, List.cons_append]
    · rw [List.forall_mem_append, List.forall_mem_singleton]
      exact ⟨blocks, Mark.block_singleton _ _⟩
  | node id op inputs checked kind ih =>
    refine ⟨_, _, kind, marks_node level checked kind, block_of_mem_blocks fun x hx => ?_⟩
    obtain ⟨k, bs, -, listed, blocks⟩ := ih x hx (level + 1)
    rw [listed]
    exact Mark.block_cons_flatten _ blocks

theorem block_marks {p : Plan} (checked : p.Checked) (level : Nat) : Mark.Block level (p.marks level) := by
  obtain ⟨k, bs, -, listed, blocks⟩ := exists_marks_eq checked level
  rw [listed]
  exact Mark.block_cons_flatten _ blocks

/-- The blocks of the inputs are those with an operator. -/
theorem filter_blocks {level : Nat} {op : Operator} {inputs : List Plan} (checked : ∀ x ∈ inputs, x.Checked) :
    (blocks level op inputs).filter (fun b => b.any fun m => !m.2.isDetail) = inputs.map (marks level) := by
  have details : ((op.details (inputs.map rowType)).map fun d => [((level, d.kind) : Mark)]).filter
      (fun b => b.any fun m => !m.2.isDetail) = [] := by
    rw [List.filter_eq_nil_iff, List.forall_mem_map]
    intro d hd
    simp [Operator.isDetail_of_mem_details hd]
  have fed : (inputs.map (marks level)).filter (fun b => b.any fun m => !m.2.isDetail) = inputs.map (marks level) := by
    rw [List.filter_eq_self, List.forall_mem_map]
    intro x hx
    obtain ⟨k, bs, -, listed, -⟩ := exists_marks_eq (checked x hx) level
    rw [listed]
    rfl
  rw [blocks, List.filter_append, details, fed, List.nil_append]

/-- The line of a filter is no block below the operator that the filter feeds. -/
theorem filter_notMem_blocks {level : Nat} {op : Operator} {inputs : List Plan} (checked : ∀ x ∈ inputs, x.Checked) :
    [(level, .operator .filter)] ∉ blocks level op inputs := by
  intro h
  rcases List.mem_append.1 h with detail | input
  · obtain ⟨d, hd, same⟩ := List.mem_map.1 detail
    have named : d.kind = .operator .filter := congrArg Prod.snd (List.singleton_injective same)
    have isDetail := Operator.isDetail_of_mem_details hd
    rw [named] at isDetail
    cases isDetail
  · obtain ⟨x, hx, same⟩ := List.mem_map.1 input
    obtain ⟨k, bs, named, listed, -⟩ := exists_marks_eq (checked x hx) level
    rw [listed] at same
    have first : (level, LineKind.operator k) = (level, .operator .filter) := (List.cons.inj same).1
    exact named (LineKind.operator.inj (congrArg Prod.snd first))

theorem marks_filter_ne_marks_node {level : Nat} {i j : NodeId} {predicate : Scalar} {op : Operator} {x : Plan}
    {inputs : List Plan} (hx : x.Checked) (checked : (node j op inputs).Checked) (h : op.kind ≠ .filter) :
    (node i (.filter predicate) [x]).marks level ≠ (node j op inputs).marks level := by
  have each : ∀ y ∈ inputs, y.Checked := fun y hy => checked.input hy
  obtain ⟨k, bs, -, listed, below⟩ := exists_marks_eq hx level
  rw [marks_filter, marks_node level checked h, listed, List.cons_append, ← List.flatten_concat]
  intro same
  have filtered : ∀ b ∈ bs ++ [[(level + 1, .operator .filter)]], Mark.Block (level + 1) b := by
    rw [List.forall_mem_append, List.forall_mem_singleton]
    exact ⟨below, Mark.block_singleton _ _⟩
  have blocks := Mark.eq_of_flatten_eq filtered
    (block_of_mem_blocks fun y hy => block_marks (each y hy) _) (List.cons.inj same).2
  exact filter_notMem_blocks each (blocks ▸ List.mem_append_right _ List.mem_cons_self)

/-! ## Kinds -/

/-- The same kinds of operators with the same numbers of inputs stand at the same places of the plans. -/
def SameKinds (p q : Plan) : Prop :=
  ∀ path, (p.descend? path).map (fun z => (z.kind, z.inputs.length)) =
    (q.descend? path).map fun z => (z.kind, z.inputs.length)

theorem sameKinds_node {i j : NodeId} {f g : Operator} {xs ys : List Plan} (kind : f.kind = g.kind)
    (length : xs.length = ys.length)
    (each : ∀ (n : Nat) (x y : Plan), xs[n]? = some x → ys[n]? = some y → x.SameKinds y) :
    (node i f xs).SameKinds (node j g ys) := by
  intro path
  cases path with
  | nil => simp [descend?, kind, length]
  | cons n path =>
    rw [descend?, descend?, inputs_node, inputs_node]
    cases hx : xs[n]? with
    | none =>
      rw [List.getElem?_eq_none_iff, length, ← List.getElem?_eq_none_iff] at hx
      rw [hx]
    | some x =>
      obtain ⟨bound, -⟩ := List.getElem?_eq_some_iff.1 hx
      have hy : ys[n]? = some ys[n] := List.getElem?_eq_getElem (length ▸ bound)
      rw [hy]
      exact each n x _ hx hy path

/-- The marks of a listing determine the kinds of the operators. -/
theorem sameKinds_of_marks_eq {p q : Plan} (hp : p.Checked) (hq : q.Checked) {level : Nat}
    (h : p.marks level = q.marks level) : p.SameKinds q := by
  induction p, hp using Checked.induction generalizing q level with
  | filter i predicate x hp ih =>
    have hx := hp.input List.mem_cons_self
    cases q, hq using Checked.induction with
    | filter j predicate' y hq _ =>
      rw [marks_filter, marks_filter] at h
      have below := ih (hq.input List.mem_cons_self) (List.append_cancel_right h)
      refine sameKinds_node rfl rfl fun n a b ha hb => ?_
      obtain rfl := List.mem_singleton.1 (List.mem_of_getElem? ha)
      obtain rfl := List.mem_singleton.1 (List.mem_of_getElem? hb)
      exact below
    | node j g ys hq kind _ => exact absurd h (marks_filter_ne_marks_node hx hq kind)
  | node i f xs hp kind ih =>
    cases q, hq using Checked.induction with
    | filter j predicate y hq _ =>
      exact absurd h.symm (marks_filter_ne_marks_node (hq.input List.mem_cons_self) hp kind)
    | node j g ys hq kind' _ =>
      rw [marks_node level hp kind, marks_node level hq kind'] at h
      obtain ⟨first, below⟩ := List.cons.inj h
      have xsChecked : ∀ x ∈ xs, x.Checked := fun x hx => hp.input hx
      have ysChecked : ∀ y ∈ ys, y.Checked := fun y hy => hq.input hy
      have same := Mark.eq_of_flatten_eq (block_of_mem_blocks fun x hx => block_marks (xsChecked x hx) _)
        (block_of_mem_blocks fun y hy => block_marks (ysChecked y hy) _) below
      have inputs : xs.map (marks (level + 1)) = ys.map (marks (level + 1)) := by
        rw [← filter_blocks xsChecked, ← filter_blocks ysChecked, same]
      have length := congrArg List.length inputs
      rw [List.length_map, List.length_map] at length
      refine sameKinds_node (LineKind.operator.inj (congrArg Prod.snd first)) length fun n x y hx hy => ?_
      have marked := congrArg (·[n]?) inputs
      simp only [List.getElem?_map, hx, hy, Option.map_some, Option.some.injEq] at marked
      exact ih x (List.mem_of_getElem? hx) (ysChecked y (List.mem_of_getElem? hy)) marked

/-! ## Lines -/

/-- No line needs an indentation that exceeds 16 bits. -/
def Narrow (p : Plan) : Prop := ∀ e ∈ p.entries 0, 2 * e.level < 65536

instance (p : Plan) : Decidable p.Narrow := inferInstanceAs (Decidable (∀ e ∈ p.entries 0, 2 * e.level < 65536))

theorem Narrow.toNat_indent {p : Plan} (narrow : p.Narrow) {e : Entry} (h : e ∈ p.entries 0) :
    e.line.indent.toNat = 2 * e.level := by
  rw [Entry.toNat_indent_line]
  exact Nat.mod_eq_of_lt (narrow e h)

theorem marks_eq_map_lines {p : Plan} (checked : p.Checked) (narrow : p.Narrow) :
    p.marks 0 = (p.lines 0).map fun l => (l.indent.toNat / 2, l.content.kind) := by
  rw [lines_zero checked, List.map_map, marks]
  refine List.map_congr_left fun e he => ?_
  rw [Function.comp_apply, narrow.toNat_indent he, Nat.mul_div_cancel_left e.level (by decide)]
  rfl

/-- The lines that name an operator are those of the nodes that are no filters, in pre-order, with two columns
for each level. The kinds and indentations of all lines determine the kinds of the operators, filters included. -/
theorem lines_determine_kinds {p : Plan} (checked : p.Checked) (narrow : p.Narrow) :
    (p.levels 0).map Prod.snd = p.preorder ∧
      ((p.lines 0).filter (·.content.isOperator)).map (fun l => (l.indent.toNat, l.content)) =
        ((p.levels 0).filter (·.2.kind ≠ .filter)).map
          (fun z => (2 * z.1, z.2.op.heading (z.2.inputs.map rowType))) ∧
      ∀ q : Plan, q.Checked → q.Narrow →
        (p.lines 0).map (fun l => (l.content.kind, l.indent)) =
          (q.lines 0).map (fun l => (l.content.kind, l.indent)) → p.SameKinds q := by
  refine ⟨map_snd_levels 0 p, ?_, fun q hq narrow' same => ?_⟩
  · have named : (fun l : Line => l.content.isOperator) ∘ Entry.line = (·.content.isOperator) := rfl
    have nodes : ((p.levels 0).filter (·.2.kind ≠ .filter)).map
        (fun z => (2 * z.1, z.2.op.heading (z.2.inputs.map rowType))) =
        ((p.entries 0).filter (·.content.isOperator)).map fun e => (2 * e.level, e.content) := by
      rw [filter_isOperator_entries checked, List.map_map]
      rfl
    rw [lines_zero checked, List.filter_map, List.map_map, named, nodes]
    refine List.map_congr_left fun e he => ?_
    rw [Function.comp_apply, narrow.toNat_indent (List.mem_of_mem_filter he)]
    rfl
  · have marks : p.marks 0 = q.marks 0 := by
      rw [marks_eq_map_lines checked narrow, marks_eq_map_lines hq narrow']
      have halved := congrArg (List.map fun m : LineKind × UInt16 => (m.2.toNat / 2, m.1)) same
      rw [List.map_map, List.map_map] at halved
      exact halved
    exact sameKinds_of_marks_eq checked hq marks

/-- A semijoin of two tables of pairs on the first column, with two filters on the left. -/
def filteredJoin (inner outer : Scalar) (table : Nat) : Plan :=
  .node 4 (.semiJoin (.ofNats [0]) (.ofNats [0]))
    [.node 2 (.filter outer) [.node 1 (.filter inner) [.node 0 (.tableScan (.ofPairs table [])) []]], morePairs]

theorem sameKinds_filteredJoin :
    (filteredJoin (.conj []) (.field 1 .bigint) 0).Checked ∧ (filteredJoin (.conj []) (.field 1 .bigint) 0).Narrow ∧
      (filteredJoin (.field 0 .bigint) (.isNotNull (.conj [])) 7).Checked ∧
      (filteredJoin (.field 0 .bigint) (.isNotNull (.conj [])) 7).Narrow ∧
      (filteredJoin (.conj []) (.field 1 .bigint) 0).SameKinds
        (filteredJoin (.field 0 .bigint) (.isNotNull (.conj [])) 7) := by
  have checked : (filteredJoin (.conj []) (.field 1 .bigint) 0).Checked := by decide
  have narrow : (filteredJoin (.conj []) (.field 1 .bigint) 0).Narrow := by decide
  have checked' : (filteredJoin (.field 0 .bigint) (.isNotNull (.conj [])) 7).Checked := by decide
  have narrow' : (filteredJoin (.field 0 .bigint) (.isNotNull (.conj [])) 7).Narrow := by decide
  obtain ⟨-, -, determined⟩ := lines_determine_kinds checked narrow
  exact ⟨checked, narrow, checked', narrow', determined _ checked' narrow' (by decide)⟩

end Plan

end QueryPlan
