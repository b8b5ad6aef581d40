import Mathlib.Data.List.Induction
import Mathlib.Data.List.Lex
import QueryPlan.Proofs.Rewriting

/-!
# Patterns as embeddings

A position in a tree is the path of child numbers that leads to it from the root. A pattern is put on a plan
position by position: its root on the root of the plan, and each child on the input with the same number
(`Pattern.Embedding`). A match succeeds exactly if this gives every operand an operator of its kind, and it
binds these operators in the pre-order of the pattern (`Pattern.match_iff_embedding`).
-/
namespace QueryPlan

theorem Plan.descend?_concat {p z : Plan} {path : List Nat} (h : p.descend? path = some z) (k : Nat) :
    p.descend? (path ++ [k]) = z.inputs[k]? := by
  rw [descend?_append h, descend?]
  cases z.inputs[k]? <;> rfl

namespace Pattern

def kind : Pattern → OperatorKind
  | operand kind _ => kind

def children : Pattern → List Pattern
  | operand _ children => children

/-- Follows a path of child numbers down from the root. -/
def descend? : Pattern → List Nat → Option Pattern
  | c, [] => some c
  | c, k :: path => c.children[k]?.bind (descend? · path)

mutual
/-- The positions of all operands in pre-order. -/
def positions : Pattern → List (List Nat)
  | .operand _ children => [] :: positionsFrom 0 children
/-- The positions at and below several children, of which the first has the number `k`. -/
def positionsFrom (k : Nat) : List Pattern → List (List Nat)
  | [] => []
  | c :: cs => c.positions.map (k :: ·) ++ positionsFrom (k + 1) cs
end

/-- `c.Embedding p put`: the operand at each position is put on an operator of its kind, the root of the
pattern on the root of the plan and each child on the input with its number. -/
structure Embedding (c : Pattern) (p : Plan) (put : List Nat → Plan) : Prop where
  root : put [] = p
  child : ∀ path k, (c.descend? (path ++ [k])).isSome → (put path).inputs[k]? = some (put (path ++ [k]))
  kind : ∀ path d, c.descend? path = some d → (put path).kind = d.kind

variable {c d : Pattern} {cs : List Pattern} {p x : Plan} {path : List Nat} {put : List Nat → Plan}

/-! ## Positions -/

theorem descend?_cons_eq_some_iff {kind : OperatorKind} {k : Nat} :
    (operand kind cs).descend? (k :: path) = some d ↔ ∃ e, cs[k]? = some e ∧ e.descend? path = some d := by
  rw [descend?, children, Option.bind_eq_some_iff]

theorem descend?_concat (k : Nat) :
    c.descend? (path ++ [k]) = (c.descend? path).bind fun d => d.children[k]? := by
  induction path generalizing c with
  | nil =>
    rw [List.nil_append, descend?, descend?, Option.bind_some]
    cases c.children[k]? <;> rfl
  | cons i path ih =>
    rw [List.cons_append, descend?, descend?, Option.bind_assoc]
    exact congrArg _ (funext fun e => ih)

mutual
theorem length_positions (c : Pattern) : c.positions.length = c.size :=
  match c with
  | .operand _ children => by
    rw [positions, List.length_cons, length_positionsFrom 0 children, size, Nat.add_comm]
theorem length_positionsFrom (k : Nat) (cs : List Pattern) : (positionsFrom k cs).length = sizeAll cs :=
  match cs with
  | [] => rfl
  | c :: cs => by
    rw [positionsFrom, List.length_append, List.length_map, length_positions c, length_positionsFrom (k + 1) cs,
      sizeAll]
end

theorem mem_positionsFrom {k : Nat} : path ∈ positionsFrom k cs ↔
    ∃ i e rest, cs[i]? = some e ∧ rest ∈ e.positions ∧ path = (k + i) :: rest := by
  induction cs generalizing k with
  | nil => simp [positionsFrom]
  | cons e cs ih =>
    rw [positionsFrom, List.mem_append, List.mem_map, ih]
    constructor
    · rintro (⟨rest, mem, rfl⟩ | ⟨i, e', rest, he, mem, rfl⟩)
      · exact ⟨0, e, rest, rfl, mem, rfl⟩
      · exact ⟨i + 1, e', rest, he, mem, by rw [Nat.add_right_comm, Nat.add_assoc]⟩
    · rintro ⟨_ | i, e', rest, he, mem, rfl⟩
      · obtain rfl := Option.some.inj he
        exact .inl ⟨rest, mem, rfl⟩
      · exact .inr ⟨i, e', rest, he, mem, by rw [Nat.add_right_comm, Nat.add_assoc]⟩

/-- The positions listed are those at which there is an operand. -/
theorem mem_positions_iff : path ∈ c.positions ↔ (c.descend? path).isSome := by
  induction path generalizing c with
  | nil =>
    obtain ⟨kind, cs⟩ := c
    simp [positions, descend?]
  | cons k path ih =>
    obtain ⟨kind, cs⟩ := c
    simp only [positions, List.mem_cons, reduceCtorEq, false_or, mem_positionsFrom, Nat.zero_add,
      List.cons.injEq, Option.isSome_iff_exists, descend?_cons_eq_some_iff]
    constructor
    · rintro ⟨i, e, rest, he, mem, rfl, rfl⟩
      obtain ⟨d, hd⟩ := Option.isSome_iff_exists.1 (ih.1 mem)
      exact ⟨d, e, he, hd⟩
    · rintro ⟨d, e, he, hd⟩
      exact ⟨k, e, path, he, ih.2 (Option.isSome_of_eq_some hd), rfl, rfl⟩

mutual
/-- In pre-order the positions ascend lexicographically. -/
theorem pairwise_positions (c : Pattern) : c.positions.Pairwise (· < ·) :=
  match c with
  | .operand _ children => by
    rw [positions]
    refine List.pairwise_cons.2 ⟨fun path mem => ?_, pairwise_positionsFrom 0 children⟩
    obtain ⟨i, e, rest, -, -, rfl⟩ := mem_positionsFrom.1 mem
    exact List.Lex.nil
theorem pairwise_positionsFrom (k : Nat) (cs : List Pattern) : (positionsFrom k cs).Pairwise (· < ·) :=
  match cs with
  | [] => List.Pairwise.nil
  | c :: cs => by
    rw [positionsFrom, List.pairwise_append, List.pairwise_map]
    refine ⟨(pairwise_positions c).imp fun less => List.Lex.cons less, pairwise_positionsFrom (k + 1) cs, ?_⟩
    intro path first path' later
    obtain ⟨rest, -, rfl⟩ := List.mem_map.1 first
    obtain ⟨i, e, rest', -, -, rfl⟩ := mem_positionsFrom.1 later
    exact List.Lex.rel (by omega)
end

/-! ## Embeddings -/

/-- An embedding of a pattern consists of embeddings of its children. -/
theorem embedding_operand_iff {kind : OperatorKind} :
    (operand kind cs).Embedding p put ↔ put [] = p ∧ p.kind = kind ∧ ∀ k (e : Pattern), cs[k]? = some e →
      ∃ x, p.inputs[k]? = some x ∧ e.Embedding x fun path => put (k :: path) := by
  constructor
  · rintro ⟨rfl, child, kinds⟩
    refine ⟨rfl, kinds [] _ rfl, fun k e he => ⟨put [k], child [] k ?_, rfl, fun path i there => ?_, ?_⟩⟩
    · exact Option.isSome_of_eq_some (descend?_cons_eq_some_iff.2 ⟨e, he, rfl⟩)
    · obtain ⟨d, hd⟩ := Option.isSome_iff_exists.1 there
      exact child (k :: path) i (Option.isSome_of_eq_some (descend?_cons_eq_some_iff.2 ⟨e, he, hd⟩))
    · exact fun path d hd => kinds (k :: path) d (descend?_cons_eq_some_iff.2 ⟨e, he, hd⟩)
  · rintro ⟨root, same, below⟩
    refine ⟨root, fun path i there => ?_, fun path d hd => ?_⟩
    · obtain ⟨d, hd⟩ := Option.isSome_iff_exists.1 there
      cases path with
      | nil =>
        obtain ⟨e, he, -⟩ := descend?_cons_eq_some_iff.1 hd
        obtain ⟨x, hx, embedded⟩ := below i e he
        rw [root, hx]
        exact congrArg some embedded.root.symm
      | cons k path =>
        obtain ⟨e, he, hd⟩ := descend?_cons_eq_some_iff.1 hd
        obtain ⟨x, -, embedded⟩ := below k e he
        exact embedded.child path i (Option.isSome_of_eq_some hd)
    · cases path with
      | nil =>
        obtain rfl := Option.some.inj hd
        rw [root, same]
        rfl
      | cons k path =>
        obtain ⟨e, he, hd⟩ := descend?_cons_eq_some_iff.1 hd
        obtain ⟨x, -, embedded⟩ := below k e he
        exact embedded.kind path d hd

/-- There is one place for an operand: the position in the plan that it has in the pattern. -/
theorem Embedding.descend?_eq (h : c.Embedding p put) (there : (c.descend? path).isSome) :
    p.descend? path = some (put path) := by
  induction path using List.reverseRecOn with
  | nil => rw [h.root]; rfl
  | append_singleton path k ih =>
    have above : (c.descend? path).isSome := by
      rw [descend?_concat] at there
      exact Option.isSome_of_isSome_bind there
    rw [Plan.descend?_concat (ih above) k]
    exact h.child path k there

/-- Only the places of operands matter. -/
theorem Embedding.congr {put' : List Nat → Plan} (h : c.Embedding p put)
    (same : ∀ path, (c.descend? path).isSome → put' path = put path) : c.Embedding p put' where
  root := (same [] rfl).trans h.root
  child path k there := by
    have above : (c.descend? path).isSome := by
      rw [descend?_concat] at there
      exact Option.isSome_of_isSome_bind there
    rw [same path above, same _ there]
    exact h.child path k there
  kind path d hd := by
    rw [same path (Option.isSome_of_eq_some hd)]
    exact h.kind path d hd

mutual
/-- An embedded pattern matches, and the places of its operands are bound in order. -/
theorem Embedding.bind?_eq (c : Pattern) {p : Plan} {put : List Nat → Plan} (h : c.Embedding p put) :
    c.bind? p = some (c.positions.map put) :=
  match c with
  | .operand kind children => by
    obtain ⟨root, same, below⟩ := embedding_operand_iff.1 h
    have others : bindAll? children p.inputs = some ((positionsFrom 0 children).map put) :=
      Embedding.bindAll?_eq children (by simpa using below)
    rw [bind?, if_pos same, others, positions, List.map_cons, root]
    rfl
theorem Embedding.bindAll?_eq (cs : List Pattern) {ps : List Plan} {k : Nat} {put : List Nat → Plan}
    (h : ∀ i (c : Pattern), cs[i]? = some c →
      ∃ x, ps[i]? = some x ∧ c.Embedding x fun path => put ((k + i) :: path)) :
    bindAll? cs ps = some ((positionsFrom k cs).map put) :=
  match cs, ps with
  | [], _ => rfl
  | c :: cs, [] => by
    obtain ⟨x, hx, -⟩ := h 0 c rfl
    cases hx
  | c :: cs, p :: ps => by
    obtain ⟨x, hx, first⟩ := h 0 c rfl
    obtain rfl := Option.some.inj hx
    have others : bindAll? cs ps = some ((positionsFrom (k + 1) cs).map put) := by
      refine Embedding.bindAll?_eq cs fun i e he => ?_
      obtain ⟨y, hy, embedded⟩ := h (i + 1) e he
      rw [show k + 1 + i = k + (i + 1) by omega]
      exact ⟨y, hy, embedded⟩
    rw [bindAll?, Embedding.bind?_eq c first, others, positionsFrom, List.map_append, List.map_map]
    rfl
end

/-- The operator at a position of the plan. Where there is none, the root stands in for it. -/
def place (p : Plan) (path : List Nat) : Plan := (p.descend? path).getD p

mutual
theorem embedding_of_bind? (c : Pattern) {p : Plan} {bound : List Plan} (h : c.bind? p = some bound) :
    c.Embedding p (place p) :=
  match c with
  | .operand kind children => by
    rw [bind?] at h
    split at h
    · next same =>
      obtain ⟨others, below, -⟩ := Option.map_eq_some_iff.1 h
      refine embedding_operand_iff.2 ⟨rfl, same, fun k e he => ?_⟩
      obtain ⟨x, hx, embedded⟩ := embedding_of_bindAll? children below k e he
      refine ⟨x, hx, embedded.congr fun path there => ?_⟩
      have inside : p.descend? (k :: path) = x.descend? path := by rw [Plan.descend?, hx]
      rw [place, inside, embedded.descend?_eq there]
      rfl
    · cases h
theorem embedding_of_bindAll? (cs : List Pattern) {ps bound : List Plan} (h : bindAll? cs ps = some bound)
    (k : Nat) (e : Pattern) (he : cs[k]? = some e) : ∃ x, ps[k]? = some x ∧ e.Embedding x (place x) :=
  match cs, ps, k with
  | [], _, _ => nomatch he
  | c :: cs, p :: ps, k => by
    simp only [bindAll?, Option.bind_eq_bind, Option.bind_eq_some_iff] at h
    obtain ⟨first, hfirst, others, hothers, -⟩ := h
    cases k with
    | zero =>
      obtain rfl := Option.some.inj he
      exact ⟨p, rfl, embedding_of_bind? c hfirst⟩
    | succ k => exact embedding_of_bindAll? cs hothers k e he
  | _ :: _, [], _ => nomatch h
end

/-- A pattern matches a plan exactly if it can be put on it position by position, and there is only one way
to do so. A match binds as many operators as the pattern has operands, and they are the places of the operands
in the order of their positions, which is the lexicographic one. -/
theorem match_iff_embedding (c : Pattern) (p : Plan) :
    ((c.bind? p).isSome ↔ ∃ put, c.Embedding p put) ∧
    (∀ bound put, c.bind? p = some bound → c.Embedding p put →
      bound.length = c.size ∧ bound = c.positions.map put) ∧
    c.positions.Pairwise (· < ·) ∧ ∀ path, path ∈ c.positions ↔ (c.descend? path).isSome := by
  refine ⟨⟨fun matched => ?_, fun ⟨put, embedded⟩ => ?_⟩, fun bound put matched embedded => ?_, ?_⟩
  · obtain ⟨bound, hbound⟩ := Option.isSome_iff_exists.1 matched
    exact ⟨place p, embedding_of_bind? c hbound⟩
  · exact Option.isSome_of_eq_some (Embedding.bind?_eq c embedded)
  · obtain rfl := Option.some.inj (matched.symm.trans (Embedding.bind?_eq c embedded))
    exact ⟨(List.length_map _).trans c.length_positions, rfl⟩
  · exact ⟨c.pairwise_positions, fun path => mem_positions_iff⟩

/-- A semijoin of pairs with sorted pairs. -/
def sortedRight : Plan :=
  .node 3 (.semiJoin (.ofNats [0]) (.ofNats [0])) [.node 0 (.tableScan (.ofPairs 0 [])) [],
    .node 2 (.sort (.ofNats [0]) true) [.node 1 (.tableScan (.ofPairs 1 [])) []]]

/-- The sorted rows of a table. -/
def sortedScan : Pattern := .operand .sort [.operand .tableScan []]

/-- Both branches of the pattern are bound, the second with what stands below it. A pattern with that branch
alone is put on the first input, and does not match. -/
theorem match_iff_embedding_sortedRight :
    (∃ (bound : List Plan) (put : List Nat → Plan),
      (operand .semiJoin [.operand .tableScan [], sortedScan]).bind? sortedRight = some bound ∧
      (operand .semiJoin [.operand .tableScan [], sortedScan]).Embedding sortedRight put ∧
      bound.map Plan.id = [3, 0, 2, 1] ∧ bound = [put [], put [0], put [1], put [1, 0]]) ∧
    ¬∃ put, (operand .semiJoin [sortedScan]).Embedding sortedRight put := by
  constructor
  · obtain ⟨matched_iff, bound_eq, -⟩ :=
      match_iff_embedding (operand .semiJoin [.operand .tableScan [], sortedScan]) sortedRight
    obtain ⟨put, embedded⟩ := matched_iff.1 rfl
    exact ⟨_, put, rfl, embedded, rfl, (bound_eq _ put rfl embedded).2⟩
  · rw [← (match_iff_embedding _ _).1]
    exact Bool.false_ne_true

end Pattern

end QueryPlan
