import QueryPlan.Proofs.FieldTypes
import QueryPlan.Proofs.Outline

/-!
# Indentation in 16 bits

The indentation of a line is counted in 16 bits. It can be counted for every line of a plan exactly if whatever
has a line below its own stands under at most 32766 operators, filters apart (`Plan.Shallow`). Then the first line is
the only operator without an arrow, and every other line is indented deeper than the operator it belongs to. In a
deeper plan a line that should be indented by 65536 columns is not indented at all (`Plan.indented_iff_shallow`).
-/
namespace QueryPlan

/-- The indentation of what is two columns deeper, if 16 bits can hold it. -/
def deeper? (indent : UInt16) : Option UInt16 :=
  if indent.toNat + 2 < 65536 then some (indent + 2) else none

theorem deeper?_ofNat {level : Nat} (bound : level < 32768) :
    deeper? (UInt16.ofNat (2 * level)) =
      if level + 1 < 32768 then some (UInt16.ofNat (2 * (level + 1))) else none := by
  have fits : (UInt16.ofNat (2 * level)).toNat + 2 < 65536 ↔ level + 1 < 32768 := by
    rw [UInt16.toNat_ofNat']
    omega
  rw [deeper?, ofNat_two_mul_add_two]
  simp only [fits]

namespace Line

theorem render_of_indent_eq_zero {l : Line} (h : l.indent = 0) : l.render = l.content.text := by
  simp [render, h, String.pushn, Nat.repeat]

/-- The text of the line has an arrow behind its indentation. -/
def Marked (l : Line) : Prop := l.render = "".pushn ' ' l.indent.toNat ++ "-> " ++ l.content.text

/-- The line of an operator has an arrow if it is indented at all. -/
theorem marked_iff {l : Line} (operator : l.content.isOperator = true) : l.Marked ↔ l.indent ≠ 0 := by
  constructor
  · intro marked flush
    rw [Marked, render_of_indent_eq_zero flush, flush] at marked
    have length := congrArg String.length marked
    simp [String.pushn, Nat.repeat] at length
  · intro indented
    have positive : l.indent > 0 := UInt16.pos_iff_ne_zero.2 indented
    simp [Marked, render, operator, positive]

end Line

namespace Plan

/-! ## Building with checked additions -/

mutual
/-- The lines of a plan, unless an indentation that is computed for one of them exceeds 16 bits. It is computed
for every detail, every input and every predicate. -/
def lines? (indent : UInt16) : Plan → Option (List Line)
  | .node _ (.filter predicate) inputs => do
    let filtered ← linesAll? (some indent) inputs
    let deeper ← deeper? indent
    return filtered ++ [⟨deeper, (Operator.filter predicate).heading (inputs.map rowType)⟩]
  | .node _ op inputs => do
    let rows := inputs.map rowType
    let details ← (op.details rows).mapM fun d => (deeper? indent).map (Line.mk · d)
    let below ← linesAll? (deeper? indent) inputs
    return ⟨indent, op.heading rows⟩ :: (details ++ below)
def linesAll? (indent? : Option UInt16) : List Plan → Option (List Line)
  | [] => return []
  | p :: ps => do
    let first ← p.lines? (← indent?)
    let others ← linesAll? indent? ps
    return first ++ others
end

theorem lines?_filter (indent : UInt16) (id : NodeId) (predicate : Scalar) (x : Plan) :
    (node id (.filter predicate) [x]).lines? indent =
      (x.lines? indent).bind fun filtered => (deeper? indent).map fun deeper =>
        filtered ++ [⟨deeper, (Operator.filter predicate).heading [x.rowType]⟩] := by
  cases h : x.lines? indent <;> cases h' : deeper? indent <;> simp [lines?, linesAll?, h, h']

theorem lines?_node (indent : UInt16) (id : NodeId) {op : Operator} (inputs : List Plan) (h : op.kind ≠ .filter) :
    (node id op inputs).lines? indent =
      ((op.details (inputs.map rowType)).mapM fun d => (deeper? indent).map (Line.mk · d)).bind fun details =>
        (linesAll? (deeper? indent) inputs).map fun below =>
          ⟨indent, op.heading (inputs.map rowType)⟩ :: (details ++ below) := by
  cases op with
  | filter predicate => exact absurd rfl h
  | _ => simp [lines?, Option.map_eq_bind]

theorem linesAll?_some_eq_some_iff {indent : UInt16} {ps : List Plan} {P : Plan → Prop} {f : Plan → List Line}
    (each : ∀ x ∈ ps, ∀ ls, x.lines? indent = some ls ↔ P x ∧ ls = f x) {ls : List Line} :
    linesAll? (some indent) ps = some ls ↔ (∀ x ∈ ps, P x) ∧ ls = ps.flatMap f := by
  induction ps generalizing ls with
  | nil => simp [linesAll?, eq_comm]
  | cons p ps ih =>
    rw [List.forall_mem_cons] at each
    have others := @ih each.2
    constructor
    · intro h
      obtain ⟨first, hfirst, h⟩ := Option.bind_eq_some_iff.1 h
      obtain ⟨rest, hrest, h⟩ := Option.bind_eq_some_iff.1 h
      obtain rfl := Option.some.inj h
      obtain ⟨here, rfl⟩ := (each.1 first).1 hfirst
      obtain ⟨there, rfl⟩ := others.1 hrest
      exact ⟨List.forall_mem_cons.2 ⟨here, there⟩, rfl⟩
    · rintro ⟨fits, rfl⟩
      obtain ⟨here, there⟩ := List.forall_mem_cons.1 fits
      have first := (each.1 _).2 ⟨here, rfl⟩
      have rest := others.2 ⟨there, rfl⟩
      simp [linesAll?, first, rest]

theorem linesAll?_none_eq_some_iff {ps : List Plan} {ls : List Line} :
    linesAll? none ps = some ls ↔ ps = [] ∧ ls = [] := by
  cases ps <;> simp [linesAll?, eq_comm]

/-! ## What has a line below its own -/

/-- Does the plan have a line below that of the operator at its top? -/
def Deepens (p : Plan) : Prop := p.kind = .filter ∨ p.op.details (p.inputs.map rowType) ≠ [] ∨ p.inputs ≠ []

/-- Whatever has a line below its own stands under at most 32766 operators. -/
def Shallow (p : Plan) : Prop := ∀ z ∈ p.levels 0, z.2.Deepens → z.1 < 32767

theorem forall_level_lt_filter_iff {n level : Nat} {id : NodeId} {predicate : Scalar} {x : Plan} :
    (∀ e ∈ (node id (.filter predicate) [x]).entries level, e.level < n) ↔
      level + 1 < n ∧ ∀ e ∈ x.entries level, e.level < n := by
  rw [entries_filter, List.forall_mem_append, List.forall_mem_singleton, and_comm]

theorem forall_level_lt_node_iff {n level : Nat} {id : NodeId} {op : Operator} {inputs : List Plan}
    (checked : (node id op inputs).Checked) (kind : op.kind ≠ .filter) (bound : level < n) :
    (∀ e ∈ (node id op inputs).entries level, e.level < n) ↔
      ((node id op inputs).Deepens → level + 1 < n) ∧ ∀ x ∈ inputs, ∀ e ∈ x.entries (level + 1), e.level < n := by
  rw [entries_node level checked kind, List.forall_mem_cons, List.forall_mem_append, List.forall_mem_map]
  constructor
  · rintro ⟨-, details, below⟩
    refine ⟨?_, fun x hx e he => below e (List.mem_flatMap_of_mem hx he)⟩
    rintro (filter | detailed | fed)
    · exact absurd filter kind
    · obtain ⟨d, hd⟩ := List.exists_mem_of_ne_nil _ detailed
      exact details d hd
    · obtain ⟨x, hx⟩ := List.exists_mem_of_ne_nil _ fed
      obtain ⟨first, rest, listed, here, -⟩ := exists_outline_eq (checked.input hx) none (level + 1)
      have top : first ∈ x.entries (level + 1) := by
        rw [entries, listed]
        exact List.mem_cons_self
      exact here ▸ below first (List.mem_flatMap_of_mem hx top)
  · rintro ⟨deeper, below⟩
    refine ⟨bound, fun d hd => deeper (.inr (.inl (List.ne_nil_of_mem hd))), fun e he => ?_⟩
    obtain ⟨x, hx, he⟩ := List.mem_flatMap.1 he
    exact below x hx e he

/-- The levels of the entries are bounded if those of the nodes with a line below their own are. -/
theorem forall_level_lt_iff {n : Nat} {p : Plan} (checked : p.Checked) {level : Nat} (bound : level < n) :
    (∀ e ∈ p.entries level, e.level < n) ↔ ∀ z ∈ p.levels level, z.2.Deepens → z.1 + 1 < n := by
  induction p, checked using Checked.induction generalizing level with
  | filter id predicate x _ ih =>
    rw [forall_level_lt_filter_iff, levels_filter, List.forall_mem_cons, ih bound]
    exact and_congr_left fun _ => (imp_iff_right (.inl rfl)).symm
  | node id op inputs checked kind ih =>
    rw [forall_level_lt_node_iff checked kind bound, levels_node level id inputs kind, List.forall_mem_cons]
    refine and_congr_right fun deeper => ?_
    constructor
    · intro below z hz
      obtain ⟨x, hx, hz⟩ := List.mem_flatMap.1 hz
      exact (ih x hx (deeper (.inr (.inr (List.ne_nil_of_mem hx))))).1 (below x hx) z hz
    · intro nodes x hx
      refine (ih x hx (deeper (.inr (.inr (List.ne_nil_of_mem hx))))).2 fun z hz => ?_
      exact nodes z (List.mem_flatMap_of_mem hx hz)

theorem forall_level_lt_iff_shallow {p : Plan} (checked : p.Checked) :
    (∀ e ∈ p.entries 0, e.level < 32768) ↔ p.Shallow := by
  rw [forall_level_lt_iff checked (by decide), Shallow]
  exact forall₂_congr fun z _ => imp_congr_right fun _ => Nat.succ_lt_succ_iff

/-- The lines of a plan can be built exactly if every entry has a level that 16 bits can indent. -/
theorem lines?_eq_some_iff {p : Plan} (checked : p.Checked) {level : Nat} (bound : level < 32768)
    {ls : List Line} :
    p.lines? (UInt16.ofNat (2 * level)) = some ls ↔
      (∀ e ∈ p.entries level, e.level < 32768) ∧ ls = (p.entries level).map Entry.line := by
  induction p, checked using Checked.induction generalizing level ls with
  | filter id predicate x _ ih =>
    rw [lines?_filter, forall_level_lt_filter_iff, entries_filter, List.map_append, deeper?_ofNat bound,
      Option.bind_eq_some_iff]
    simp only [ih bound]
    by_cases deep : level + 1 < 32768
    · simp only [deep, if_true, Option.map_some, Option.some.injEq, true_and]
      constructor
      · rintro ⟨_, ⟨fits, rfl⟩, rfl⟩
        exact ⟨fits, rfl⟩
      · rintro ⟨fits, rfl⟩
        exact ⟨_, ⟨fits, rfl⟩, rfl⟩
    · simp [deep]
  | node id op inputs checked kind ih =>
    rw [lines?_node _ id inputs kind, forall_level_lt_node_iff checked kind bound, entries_node level checked kind,
      deeper?_ofNat bound]
    by_cases deep : level + 1 < 32768
    · have below := @linesAll?_some_eq_some_iff _ inputs _ _ fun x hx ls => ih x hx deep
      have details (ds : List LineContent) : ds.mapM (fun d => some (Line.mk (UInt16.ofNat (2 * (level + 1))) d)) =
          some (ds.map (Line.mk (UInt16.ofNat (2 * (level + 1))))) := List.mapM_pure
      rw [List.map_cons, List.map_append, List.map_map, List.map_flatMap]
      simp only [if_pos deep, Option.map_some, details, Option.bind_some, Option.map_eq_some_iff, below]
      constructor
      · rintro ⟨_, ⟨fits, rfl⟩, rfl⟩
        exact ⟨⟨fun _ => deep, fits⟩, rfl⟩
      · rintro ⟨⟨-, fits⟩, rfl⟩
        exact ⟨_, ⟨fits, rfl⟩, rfl⟩
    · have deepens : (node id op inputs).Deepens ↔ ¬(op.details (inputs.map rowType) = [] ∧ inputs = []) := by
        rw [Deepens, not_and_or]
        exact or_iff_right kind
      have details (ds : List LineContent) (out : List Line) :
          ds.mapM (fun _ => (none : Option Line)) = some out ↔ ds = [] ∧ out = [] := by
        cases ds <;> simp [eq_comm]
      rw [if_neg deep, deepens]
      simp only [Option.map_none, Option.bind_eq_some_iff, Option.map_eq_some_iff, details,
        linesAll?_none_eq_some_iff, deep, imp_false, not_not]
      constructor
      · rintro ⟨_, ⟨noDetail, rfl⟩, _, ⟨rfl, rfl⟩, rfl⟩
        exact ⟨⟨⟨noDetail, rfl⟩, by simp⟩, by rw [noDetail]; rfl⟩
      · rintro ⟨⟨⟨noDetail, rfl⟩, -⟩, rfl⟩
        exact ⟨[], ⟨noDetail, rfl⟩, [], ⟨rfl, rfl⟩, by rw [noDetail]; rfl⟩

/-! ## Nesting -/

/-- The first entry has level 0 and is an operator, and every other entry belongs to an operator one level up. -/
theorem exists_entries_eq {p : Plan} (checked : p.Checked) :
    ∃ first rest, p.entries 0 = first :: rest ∧ first.level = 0 ∧ first.content.isOperator = true ∧
      ∀ e ∈ rest, ∃ o ∈ p.entries 0, o.content.isOperator = true ∧ e.level = o.level + 1 := by
  obtain ⟨first, rest, listed, top, operator, owned⟩ := exists_outline_eq checked none 0
  refine ⟨first, rest.map Prod.snd, by rw [entries, listed]; rfl, top, operator, ?_⟩
  intro e he
  obtain ⟨x, hx, rfl⟩ := List.mem_map.1 he
  obtain ⟨o, ho, -, belongs⟩ := owned x hx
  exact ⟨o, ho, belongs⟩

theorem mem_of_mem_cons_of_level_ne {first e : Entry} {rest : List Entry} (h : e ∈ first :: rest)
    (ne : e.level ≠ first.level) : e ∈ rest :=
  (List.mem_cons.1 h).resolve_left fun same => ne (congrArg Entry.level same)

/-- No level is left out above an entry: an operator stands on every one of them. -/
theorem exists_level_eq {p : Plan} (checked : p.Checked) {e : Entry} (he : e ∈ p.entries 0) {n : Nat}
    (above : n ≤ e.level) :
    ∃ o ∈ p.entries 0, o.level = n ∧ (o = e ∨ o.content.isOperator = true) := by
  obtain ⟨first, rest, listed, top, -, owned⟩ := exists_entries_eq checked
  induction h : e.level - n generalizing e with
  | zero => exact ⟨e, he, by omega, .inl rfl⟩
  | succ k ih =>
    have below : e ∈ rest := mem_of_mem_cons_of_level_ne (listed ▸ he) (by omega)
    obtain ⟨o, ho, operator, level⟩ := owned e below
    obtain ⟨a, ha, here, either⟩ := ih ho (by omega) (by omega)
    exact ⟨a, ha, here, .inr (either.elim (fun same => same ▸ operator) fun h => h)⟩

/-- Every line but the first is indented deeper than the operator line it belongs to. -/
def Nested (p : Plan) : Prop :=
  ∀ x ∈ (p.outline none 0).tail, ∃ o, x.1 = some o ∧ o.line.indent < x.2.line.indent

theorem nested_iff_shallow {p : Plan} (checked : p.Checked) : p.Nested ↔ p.Shallow := by
  obtain ⟨first, rest, listed, top, -, owned⟩ := exists_outline_eq checked none 0
  have split : p.entries 0 = first :: rest.map Prod.snd := by rw [entries, listed]; rfl
  rw [Nested, listed, List.tail_cons, ← forall_level_lt_iff_shallow checked]
  constructor
  · intro nested
    by_contra deep
    obtain ⟨e, he, out⟩ : ∃ e ∈ p.entries 0, ¬e.level < 32768 := by simpa using deep
    -- The first entry that is too deep need not belong to `e`, but it stands on level 32768.
    obtain ⟨d, hd, wraps, -⟩ := exists_level_eq checked he (Nat.not_lt.1 out)
    have below : d ∈ rest.map Prod.snd := mem_of_mem_cons_of_level_ne (split ▸ hd) (by omega)
    obtain ⟨x, hx, rfl⟩ := List.mem_map.1 below
    obtain ⟨o, -, deeper⟩ := nested x hx
    have flush : x.2.line.indent.toNat = 0 := by rw [Entry.toNat_indent_line, wraps]
    exact absurd (UInt16.lt_iff_toNat_lt.1 deeper) (by omega)
  · intro fits x hx
    obtain ⟨o, ho, belongs, -, level⟩ := owned x hx
    have bound : x.2.level < 32768 := fits _ (split ▸ List.mem_cons_of_mem _ (List.mem_map_of_mem hx))
    refine ⟨o, belongs, UInt16.lt_iff_toNat_lt.2 ?_⟩
    rw [Entry.toNat_indent_line, Entry.toNat_indent_line]
    omega

/-! ## Arrows -/

/-- The first line is that of an operator and has no arrow. The operator lines below it all have one exactly if
every operator stands under at most 32767 others. -/
theorem exists_lines_eq {p : Plan} (checked : p.Checked) :
    ∃ first rest, p.lines 0 = first :: rest ∧ first.content.isOperator = true ∧
      first.render = first.content.text ∧
      ((∀ l ∈ rest, l.content.isOperator = true → l.Marked) ↔
        ∀ z ∈ p.levels 0, z.2.kind ≠ .filter → z.1 < 32768) := by
  obtain ⟨first, rest, listed, top, operator, owned⟩ := exists_entries_eq checked
  have lines : p.lines 0 = first.line :: rest.map Entry.line := by rw [lines_zero checked, listed, List.map_cons]
  have flush : first.line.indent = 0 := by rw [Entry.line, top]; rfl
  refine ⟨first.line, _, lines, operator, Line.render_of_indent_eq_zero flush, ?_⟩
  rw [List.forall_mem_map]
  constructor
  · intro marked z hz kind
    by_contra out
    obtain ⟨he, hop⟩ := (mem_entries_isOperator_iff checked).2 ⟨z, hz, kind, rfl⟩
    -- The operator itself may have an arrow again, but the one above it on level 32768 has none.
    obtain ⟨o, ho, wraps, either⟩ := exists_level_eq checked he (Nat.not_lt.1 out)
    have isOperator : o.content.isOperator = true := either.elim (fun same => same ▸ hop) fun h => h
    have below : o ∈ rest := mem_of_mem_cons_of_level_ne (listed ▸ ho) (by omega)
    have indented := (Line.marked_iff isOperator).1 (marked o below isOperator)
    exact indented (by rw [Entry.line, wraps]; rfl)
  · intro bounded e he isOperator
    have shown : e ∈ p.entries 0 := listed ▸ List.mem_cons_of_mem _ he
    obtain ⟨z, hz, kind, rfl⟩ := (mem_entries_isOperator_iff checked).1 ⟨shown, isOperator⟩
    obtain ⟨o, -, -, level⟩ := owned _ he
    have bound : (entryAt z).level < 32768 := bounded z hz kind
    refine (Line.marked_iff isOperator).2 fun flush => ?_
    have zero : (entryAt z).line.indent.toNat = 0 := by rw [flush]; rfl
    rw [Entry.toNat_indent_line] at zero
    omega

/-! ## The bound -/

theorem lines?_zero_eq_some_iff {p : Plan} (checked : p.Checked) {ls : List Line} :
    p.lines? 0 = some ls ↔ p.Shallow ∧ ls = p.lines 0 := by
  have bound : 0 < 32768 := by decide
  rw [← forall_level_lt_iff_shallow checked, lines_zero checked]
  exact lines?_eq_some_iff checked bound

theorem lines?_zero_eq_none_iff {p : Plan} (checked : p.Checked) : p.lines? 0 = none ↔ ¬p.Shallow := by
  rw [Option.eq_none_iff_forall_ne_some]
  constructor
  · exact fun overflow shallow => overflow _ ((lines?_zero_eq_some_iff checked).2 ⟨shallow, rfl⟩)
  · exact fun deep ls built => deep ((lines?_zero_eq_some_iff checked).1 built).1

/-- A plan whose lines can be built without an overflow is a shallow one. Its lines are then those of the listing,
and exactly then the others are indented deeper than the operator they belong to. In a deeper plan an operator line
below the first may miss its arrow. -/
theorem indented_iff_shallow {p : Plan} (checked : p.Checked) :
    (p.lines? 0 = some (p.lines 0) ↔ p.Shallow) ∧ (p.lines? 0 = none ↔ ¬p.Shallow) ∧
      (p.outline none 0).map (·.2.line) = p.lines 0 ∧ (p.Nested ↔ p.Shallow) ∧
      ∃ first rest, p.lines 0 = first :: rest ∧ first.content.isOperator = true ∧
        first.render = first.content.text ∧
        ((∀ l ∈ rest, l.content.isOperator = true → l.Marked) ↔
          ∀ z ∈ p.levels 0, z.2.kind ≠ .filter → z.1 < 32768) := by
  refine ⟨(lines?_zero_eq_some_iff checked).trans (and_iff_left rfl), lines?_zero_eq_none_iff checked, ?_,
    nested_iff_shallow checked, exists_lines_eq checked⟩
  rw [lines_zero checked, entries, List.map_map]
  rfl

/-- That many projections of some pairs to their first values, one on another. -/
def stacked : Nat → Plan
  | 0 => somePairs
  | n + 1 => .node (n + 1) (.project [⟨"first", .field 0 .bigint⟩]) [stacked n]

theorem checked_stacked (n : Nat) : (stacked n).Checked := by
  induction n with
  | zero => exact everywhere_node.2 ⟨rfl, List.forall_mem_nil _⟩
  | succ n ih =>
    refine everywhere_node.2 ⟨?_, List.forall_mem_singleton.2 ih⟩
    cases n <;> rfl

/-- The projections of a stack take one level each. -/
theorem mem_levels_stacked (level m n : Nat) : (level + n, stacked m) ∈ (stacked (m + n)).levels level := by
  induction n generalizing level with
  | zero =>
    cases m <;> exact List.mem_cons_self
  | succ n ih =>
    have below := ih (level + 1)
    rw [Nat.add_assoc, Nat.add_comm 1] at below
    rw [← Nat.add_assoc m, stacked, levels_node level _ _ (by decide)]
    exact List.mem_cons_of_mem _ (by simpa using below)

theorem shallow_stacked_one : (stacked 1).Shallow := by
  intro z hz _
  have levels : z ∈ [(0, stacked 1), (1, stacked 0)] := hz
  rcases List.mem_pair.1 levels with rfl | rfl <;> decide

theorem indented_stacked_one :
    (stacked 1).Checked ∧ (stacked 1).Shallow ∧ (stacked 1).lines? 0 = some ((stacked 1).lines 0) ∧
      (stacked 1).Nested := by
  obtain ⟨built, -, -, nested, -⟩ := indented_iff_shallow (checked_stacked 1)
  exact ⟨checked_stacked 1, shallow_stacked_one, built.2 shallow_stacked_one, nested.2 shallow_stacked_one⟩

/-- Under 32768 projections the line of the scan is flush left again. -/
theorem not_indented_stacked :
    (stacked 32768).Checked ∧ (stacked 32768).lines? 0 = none ∧ ¬(stacked 32768).Nested ∧
      ∃ first rest, (stacked 32768).lines 0 = first :: rest ∧
        ∃ l ∈ rest, l.content = .tableScan "pairs" ∧ l.indent = 0 ∧ l.render = l.content.text := by
  have checked := checked_stacked 32768
  have deep : ¬(stacked 32768).Shallow := by
    intro shallow
    have bound := shallow _ (mem_levels_stacked 0 1 32767) (.inr (.inr (List.cons_ne_nil _ _)))
    exact absurd bound (by decide)
  refine ⟨checked, (lines?_zero_eq_none_iff checked).2 deep, (nested_iff_shallow checked).not.2 deep, ?_⟩
  obtain ⟨first, rest, listed, top, -, -⟩ := exists_entries_eq checked
  have lines : (stacked 32768).lines 0 = first.line :: rest.map Entry.line := by
    rw [lines_zero checked, listed, List.map_cons]
  have node : (32768, stacked 0) ∈ (stacked 32768).levels 0 := mem_levels_stacked 0 0 32768
  obtain ⟨shown, -⟩ := (mem_entries_isOperator_iff checked).2 ⟨_, node, by decide, rfl⟩
  have below : entryAt (32768, stacked 0) ∈ rest :=
    mem_of_mem_cons_of_level_ne (listed ▸ shown) (by rw [top]; decide)
  exact ⟨_, _, lines, _, List.mem_map_of_mem below, rfl, rfl, Line.render_of_indent_eq_zero rfl⟩

end Plan

end QueryPlan
