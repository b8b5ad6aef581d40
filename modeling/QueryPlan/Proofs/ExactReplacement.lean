import QueryPlan.Plan.Shape
import QueryPlan.Proofs.Termination

/-!
# Replacing is substituting

The naive substitution puts the replacement wherever the node stands and copies every operator around
it (`Plan.substitute`). A replacement that returns has this shape (`Plan.Replaced.shape_eq`), and what does
not contain the node it shares with the old tree, position by position (`Plan.Shares`). A replacement
fails as the copy of some operator above the node does (`Plan.exists_refusal_of_fails`).
-/
namespace QueryPlan

namespace Plan

mutual
/-- The naive substitution of `replacement` for the node `target`. It is a matter of shapes, so a copied
operator may go by its old identity. -/
def substitute (target replacement : Plan) : Plan → Plan
  | node i op xs =>
    if i = target.id then replacement else node i op (substituteAll target replacement xs)
def substituteAll (target replacement : Plan) : List Plan → List Plan
  | [] => []
  | p :: ps => substitute target replacement p :: substituteAll target replacement ps
end

variable {target replacement p q z : Plan} {next : NodeId}

@[simp] theorem substituteAll_eq_map (ps : List Plan) :
    substituteAll target replacement ps = ps.map (substitute target replacement) := by
  induction ps with
  | nil => rfl
  | cons p ps ih => rw [substituteAll, ih, List.map_cons]

theorem substitute_node (i : NodeId) (op : Operator) (xs : List Plan) :
    substitute target replacement (node i op xs) =
      if i = target.id then replacement else node i op (xs.map (substitute target replacement)) := by
  rw [substitute, substituteAll_eq_map]

/-- A substitution leaves alone what does not have the node. -/
theorem Lacks.substitute_eq (absent : target.Lacks p) : substitute target replacement p = p := by
  induction p with
  | node i op xs ih =>
    have below := (everywhere_node.1 absent).2
    have inputs : xs.map (substitute target replacement) = xs :=
      (List.map_congr_left fun x hx => ih x hx (below x hx)).trans (List.map_id xs)
    rw [substitute_node, if_neg (show i ≠ target.id from absent.root), inputs]

theorem substitute_self (alone : p.Everywhere fun z => z.id = target.id → z = target) :
    substitute target target p = p := by
  induction p with
  | node i op xs ih =>
    obtain ⟨root, below⟩ := everywhere_node.1 alone
    rw [substitute_node]
    split
    · next same => exact (root same).symm
    · rw [(List.map_congr_left fun x hx => ih x hx (below x hx)).trans (List.map_id xs)]

/-- Putting a node in place of itself changes nothing. -/
theorem replace_self (alone : p.Everywhere fun z => z.id = target.id → z = target) :
    replace target target p = pure p := by
  induction p with
  | node i op xs ih =>
    obtain ⟨root, below⟩ := everywhere_node.1 alone
    rw [replace_node]
    split
    · next same => rw [root same]
    · rw [Planner.mapM_eq_pure fun x hx => ih x hx (below x hx), pure_bind, if_pos rfl]

/-- Up to identities a replacement is the naive substitution. -/
theorem Replaced.shape_eq (h : Replaced target replacement next p q) :
    q.shape = (substitute target replacement p).shape := by
  induction p generalizing q with
  | node i op xs ih =>
    cases h with
    | hit same =>
      have same : i = target.id := same
      rw [substitute_node, if_pos same]
    | kept absent => rw [absent.substitute_eq]
    | rebuilt other _ inputs =>
      have each := forall₂_imp_of_mem inputs fun x hx y hy => ih x hx hy
      rw [substitute_node, if_neg other, shape_node, shape_node, List.map_map, map_eq_map_of_forall₂ each]
      rfl

theorem Replaced.map_rowType_eq {xs ys : List Plan}
    (h : List.Forall₂ (Replaced target replacement next) xs ys) :
    ys.map rowType = (xs.map (substitute target replacement)).map rowType := by
  rw [List.map_map]
  exact map_eq_map_of_forall₂ (h.imp fun _ _ replaced => rowType_eq_of_shape_eq _ _ replaced.shape_eq)

/-! ## Positions -/

/-- A position that neither has the node below it nor lies at or below the node keeps its plan. -/
theorem Replaced.descend?_of_lacks (h : Replaced target replacement next p q)
    (alone : p.Everywhere fun z => z.id = target.id → z = target) {path : List Nat}
    (stands : p.descend? path = some z) (absent : target.Lacks z)
    (outside : ∀ before, before <+: path → p.descend? before ≠ some target) : q.descend? path = some z := by
  induction path generalizing p q with
  | nil =>
    obtain rfl := Option.some.inj stands
    rw [h.eq_of_lacks absent, descend?]
  | cons n path ih =>
    obtain ⟨i, op, xs⟩ := p
    cases h with
    | hit same => exact absurd (congrArg some (alone.root same)) (outside [] List.nil_prefix)
    | kept => exact stands
    | rebuilt _ _ inputs =>
      obtain ⟨x, hx, below⟩ := descend?_cons_eq_some_iff.1 stands
      obtain ⟨y, hy, replaced⟩ := exists_getElem?_left_of_forall₂ inputs.flip hx
      refine descend?_cons_eq_some_iff.2 ⟨y, hy, ih replaced ?_ below fun before sub found => ?_⟩
      · exact (everywhere_node.1 alone).2 x (List.mem_of_getElem? hx)
      · exact outside (n :: before) (List.cons_prefix_cons.2 ⟨rfl, sub⟩)
          (descend?_cons_eq_some_iff.2 ⟨x, hx, found⟩)

/-- At the positions of the node stands the replacement. -/
theorem Replaced.descend?_of_target (h : Replaced target replacement next p q)
    (alone : p.Everywhere fun z => z.id = target.id → z = target) {path : List Nat}
    (stands : p.descend? path = some target) : q.descend? path = some replacement := by
  induction path generalizing p q with
  | nil =>
    obtain rfl := Option.some.inj stands
    cases h with
    | hit => rfl
    | kept absent => exact absurd rfl absent.root
    | rebuilt other => exact absurd rfl other
  | cons n path ih =>
    obtain ⟨i, op, xs⟩ := p
    obtain ⟨x, hx, below⟩ := descend?_cons_eq_some_iff.1 stands
    have hmem := List.mem_of_getElem? hx
    have present := mem_preorder_of_descend? below
    cases h with
    | hit same =>
      -- The node would stand below itself.
      have whole : node i op xs = target := alone.root same
      subst whole
      exact absurd present (not_mem_preorder_of_mem_inputs hmem)
    | kept absent => exact absurd rfl ((everywhere_node.1 absent).2 x hmem target present)
    | rebuilt _ _ inputs =>
      obtain ⟨y, hy, replaced⟩ := exists_getElem?_left_of_forall₂ inputs.flip hx
      exact descend?_cons_eq_some_iff.2 ⟨y, hy, ih replaced ((everywhere_node.1 alone).2 x hmem) below⟩

theorem sizeOf_shape_le_of_mem_preorder (h : z ∈ p.preorder) : sizeOf z.shape ≤ sizeOf p.shape := by
  induction p with
  | node i op xs ih =>
    rcases mem_preorder_node.1 h with rfl | ⟨x, hx, hz⟩
    · exact Nat.le_refl _
    · have below := List.sizeOf_lt_of_mem (List.mem_map_of_mem (f := shape) hx)
      have inside := ih x hx hz
      simp only [shape_node, Shape.node.sizeOf_spec]
      omega

/-- What stands properly inside a plan has another shape. -/
theorem eq_of_mem_preorder_of_shape_eq (h : z ∈ p.preorder) (same : z.shape = p.shape) : z = p := by
  obtain ⟨i, op, xs⟩ := p
  rcases mem_preorder_node.1 h with rfl | ⟨x, hx, hz⟩
  · rfl
  · have below := List.sizeOf_lt_of_mem (List.mem_map_of_mem (f := shape) hx)
    have inside := sizeOf_shape_le_of_mem_preorder hz
    have equal := congrArg sizeOf same
    simp only [shape_node, Shape.node.sizeOf_spec] at equal
    omega

theorem lacks_iff (alone : p.Everywhere fun z => z.id = target.id → z = target) :
    target.Lacks p ↔ target ∉ p.preorder :=
  ⟨fun absent present => absent target present rfl,
    fun absent z hz same => absent (alone z hz same ▸ hz)⟩

/-- What the tree `q` has of the tree `root`, position by position, where `replacement` has taken the
place of the node `target`. Plans are equal here as nodes, with all their identities. -/
structure Shares (target replacement root q : Plan) : Prop where
  placed : ∀ path, root.descend? path = some target → q.descend? path = some replacement
  /-- To have the shape of the node is not to be the node. -/
  alike : ∀ path z, root.descend? path = some z → z.shape = target.shape → z ≠ target →
    q.descend? path = some z
  apart : ∀ path z, root.descend? path = some z → target ∉ z.preorder →
    (∀ before, before <+: path → root.descend? before ≠ some target) → q.descend? path = some z
  whole : target ∉ root.preorder ∨ replacement = target → q = root

theorem Shares.refl (p target : Plan) : Shares target target p p where
  placed _ stands := stands
  alike _ _ stands _ _ := stands
  apart _ _ stands _ _ := stands
  whole _ := rfl

theorem Replaced.shares (h : Replaced target replacement next p q)
    (alone : p.Everywhere fun z => z.id = target.id → z = target) (ne : replacement ≠ target) :
    Shares target replacement p q where
  placed _ := h.descend?_of_target alone
  alike := by
    intro path z stands same other
    have inside := mem_preorder_of_descend? stands
    refine h.descend?_of_lacks alone stands ((lacks_iff (alone.of_mem inside)).2 fun present => ?_) ?_
    · exact other (eq_of_mem_preorder_of_shape_eq present same.symm).symm
    · rintro before ⟨after, rfl⟩ found
      rw [descend?_append found] at stands
      exact other (eq_of_mem_preorder_of_shape_eq (mem_preorder_of_descend? stands) same)
  apart path z stands absent :=
    h.descend?_of_lacks alone stands ((lacks_iff (alone.of_mem (mem_preorder_of_descend? stands))).2 absent)
  whole
    | .inl absent => h.eq_of_lacks ((lacks_iff alone).2 absent)
    | .inr same => absurd same ne

/-! ## Failures -/

/-- One of several replacements, in the workspace that the ones before have left. -/
theorem Reached.step (ne : replacement.id ≠ target.id) {xs : List Plan} {w w' : Workspace}
    (reached : Reached next (replacement :: xs) w) (hp : p ∈ xs) (old : p.Everywhere fun z => z.id < next)
    (h : (Plan.replace target replacement p).Returns w q w') :
    Reached next (replacement :: xs) w' ∧ Replaced target replacement next p q := by
  have sub : [replacement, p] ⊆ replacement :: xs := by simp [hp]
  obtain ⟨later', replaced⟩ := returns_replace ne old (reached.mono sub) h
  exact ⟨reached.replace sub later' h, replaced⟩

/-- A replacement fails as some operator above the node does, over its substituted inputs. -/
theorem exists_refusal_of_fails (ne : replacement.id ≠ target.id) {w w' : Workspace} {e : PlanError}
    (old : p.Everywhere fun z => z.id < next) (reached : Reached next [replacement, p] w)
    (h : (replace target replacement p).Fails w e w') :
    ∃ z ∈ p.preorder, ¬target.Lacks z ∧ z.id ≠ target.id ∧
      (z.rebuild (z.inputs.map (substitute target replacement))).Ends (· = .error e) := by
  induction p generalizing w w' with
  | node i op xs ih =>
    rw [replace_node] at h
    split at h
    · cases h
    next other =>
    have oldInputs := (everywhere_node.1 old).2
    have each : ∀ x ∈ xs, ∀ u y u', Reached next (replacement :: xs) u →
        (replace target replacement x).Returns u y u' →
          Reached next (replacement :: xs) u' ∧ Replaced target replacement next x y :=
      fun x hx u y u' reached hy => reached.step ne hx (oldInputs x hx) hy
    rcases Planner.fails_bind.1 h with below | ⟨ys, v, hys, h⟩
    · obtain ⟨x, hx, u, known, failed⟩ :=
        Planner.exists_of_fails_mapM (fun x hx u y u' reached hy => (each x hx u y u' reached hy).1)
          reached.inputs below
      obtain ⟨z, hz, refusal⟩ := ih x hx (oldInputs x hx) (known.mono (by simp [hx])) failed
      exact ⟨z, mem_preorder_node.2 (.inr ⟨x, hx, hz⟩), refusal⟩
    · obtain ⟨-, inputs⟩ := Planner.forall₂_of_returns_mapM each reached.inputs hys
      split at h
      · cases h
      next changed =>
      refine ⟨node i op xs, self_mem_preorder _, fun absent => changed ?_, other, ?_⟩
      · rw [Replaced.eq_of_forall₂_lacks inputs (everywhere_node.1 absent).2]
      · rw [rebuild_eq_of_length (List.length_map _)]
        refine ends_build_error ?_
        rw [inputs_node, ← Replaced.map_rowType_eq inputs]
        exact (fails_build.1 h).1

/-- A replacement is the naive substitution, but for identities, and shares with the old tree all that is
not above the node. Where it fails, the copy of an operator above the node fails in the same way. -/
theorem replace_exact {w : Workspace} {built : List Plan} {root target replacement : Plan}
    (holds : w.Holds built) (hroot : root ∈ built) (htarget : target ∈ built)
    (hreplacement : replacement ∈ built) :
    (∀ q w', (replace target replacement root).Returns w q w' →
      q.shape = (substitute target replacement root).shape ∧ Shares target replacement root q) ∧
    ∀ e w', (replace target replacement root).Fails w e w' →
      ∃ z ∈ root.preorder, target ∈ z.preorder ∧ z ≠ target ∧
        (z.rebuild (z.inputs.map (substitute target replacement))).Ends (· = .error e) := by
  have alone := holds.alone hroot htarget
  by_cases ne : replacement = target
  · subst ne
    rw [replace_self alone]
    constructor
    · intro q w' returned
      obtain ⟨rfl, -⟩ := Planner.returns_pure.1 returned
      exact ⟨by rw [substitute_self alone], .refl _ _⟩
    · intro e w' failed
      cases failed
  constructor
  · intro q w' returned
    have replaced := replaced_of_returns holds hroot htarget hreplacement ne returned
    exact ⟨replaced.shape_eq, replaced.shares alone ne⟩
  · intro e w' failed
    have other : replacement.id ≠ target.id :=
      fun same => ne (holds.eq_of_id replacement hreplacement target htarget same)
    obtain ⟨old, reached⟩ := reached_of_holds holds hroot hreplacement
    obtain ⟨z, hz, present, above, refusal⟩ := exists_refusal_of_fails other old reached failed
    have present : target ∈ z.preorder := by
      rw [lacks_iff (alone.of_mem hz), not_not] at present
      exact present
    exact ⟨z, hz, present, fun same => above (congrArg id same), refusal⟩

/-- The scan that stands at both places of a semijoin that is read twice. -/
def pairsScan : Plan := .node 0 (.tableScan (.ofPairs 0 [.onPairs 1 [0]])) []

/-- Replacements that contain the scan themselves: one passes its rows on, the other drops the fields. -/
def sortedPairs : Plan := .node 5 (.sort (.ofNats [1]) true) [pairsScan]

def droppedPairs : Plan := .node 6 (.project []) [pairsScan]

theorem replace_exact_pairsTwice :
    (∃ q w', (replace pairsScan sortedPairs pairsTwice).Returns { nextNode := 7 } q w' ∧
      w'.nextNode = 10 ∧ q.shape = (substitute pairsScan sortedPairs pairsTwice).shape ∧
      Shares pairsScan sortedPairs pairsTwice q) ∧
    ∃ e w', (replace pairsScan droppedPairs pairsTwice).Fails { nextNode := 7 } e w' ∧
      ∃ z ∈ pairsTwice.preorder, pairsScan ∈ z.preorder ∧ z ≠ pairsScan ∧
        (z.rebuild (z.inputs.map (substitute pairsScan droppedPairs))).Ends (· = .error e) := by
  have sides : [firstOfPairs, firstOfPairs] ⊆ firstOfPairs.preorder := by simp
  have twice : ({ nextNode := 5 } : Workspace).Holds (pairsTwice :: firstOfPairs.preorder) :=
    holds_firstOfPairs.cons_fresh sides rfl
  have scan : pairsScan ∈ pairsTwice :: firstOfPairs.preorder := by
    simp [firstOfPairs, ScanSemiJoin.plan, ScanSemiJoin.lhs, ScanSemiJoin.ofPairs, pairsScan]
  have sorted : ({ nextNode := 6 } : Workspace).Holds (sortedPairs :: pairsTwice :: firstOfPairs.preorder) :=
    twice.cons_fresh (List.cons_subset.2 ⟨scan, List.nil_subset _⟩) rfl
  have holds : ({ nextNode := 7 } : Workspace).Holds
      (droppedPairs :: sortedPairs :: pairsTwice :: firstOfPairs.preorder) :=
    sorted.cons_fresh (List.cons_subset.2 ⟨List.mem_cons_of_mem _ scan, List.nil_subset _⟩) rfl
  have root : pairsTwice ∈ droppedPairs :: sortedPairs :: pairsTwice :: firstOfPairs.preorder := by simp
  have target := List.mem_cons_of_mem droppedPairs (List.mem_cons_of_mem sortedPairs scan)
  constructor
  · have run : (replace pairsScan sortedPairs pairsTwice).leadsTo { nextNode := 7 }
        (fun _ w' => decide (w'.nextNode = 10)) := by
      decide +kernel
    obtain ⟨q, w', returned, later⟩ := Planner.exists_of_leadsTo run
    exact ⟨q, w', returned, of_decide_eq_true later,
      (replace_exact holds root target (by simp)).1 q w' returned⟩
  · have failed : (replace pairsScan droppedPairs pairsTwice).Fails { nextNode := 7 }
        (.fieldOutOfRange 0 0) { nextNode := 7 } := by
      rfl
    exact ⟨_, _, failed, (replace_exact holds root target (by simp)).2 _ _ failed⟩

end Plan

end QueryPlan
