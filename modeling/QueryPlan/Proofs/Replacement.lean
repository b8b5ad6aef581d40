import QueryPlan.Proofs.Places
import QueryPlan.Proofs.Runs

/-!
# Replacements, place by place

A node that is replaced in a tree gives way at every place where it stands, and exactly the operators
above these places are built again, under new identities (`Plan.Replaced`). What the nodes of the
tree contribute is kept, except that at each of these places the contribution of the node is exchanged
for that of the replacement (`Plan.Replaced.total_eq`).
-/
namespace QueryPlan

namespace Plan

/-- The node `target` stands nowhere in the plan. -/
def Lacks (target p : Plan) : Prop := p.Everywhere fun z => z.id ≠ target.id

/-- `Replaced target replacement next p q`: where `next` is the next identity, replacing `target`
turns `p` into `q`. -/
inductive Replaced (target replacement : Plan) (next : NodeId) : Plan → Plan → Prop
  | hit {p : Plan} (same : p.id = target.id) : Replaced target replacement next p replacement
  | kept {p : Plan} (absent : target.Lacks p) : Replaced target replacement next p p
  | rebuilt {i j : NodeId} {op : Operator} {xs ys : List Plan} (other : i ≠ target.id)
      (found : ∃ x ∈ xs, ¬target.Lacks x)
      (inputs : List.Forall₂ (Replaced target replacement next) xs ys) (fresh : next ≤ j)
      (newest : ∀ y ∈ ys, y.Everywhere fun z => z.id < j) :
      Replaced target replacement next (node i op xs) (node j op ys)

variable {target replacement p q : Plan} {next : NodeId}

/-- Where the node does not stand, nothing is replaced. -/
theorem Replaced.eq_of_lacks (h : Replaced target replacement next p q) (absent : target.Lacks p) :
    q = p := by
  cases h with
  | hit same => exact absurd same absent.root
  | kept => rfl
  | rebuilt _ found =>
    obtain ⟨x, hx, present⟩ := found
    exact absurd ((everywhere_node.1 absent).2 x hx) present

/-- A plan that is still the same node does not have the node that was replaced. -/
theorem Replaced.lacks_of_id_eq (h : Replaced target replacement next p q)
    (ne : replacement.id ≠ target.id) (lt : p.id < next) (same : q.id = p.id) : target.Lacks p := by
  cases h with
  | hit hit => exact absurd (same.trans hit) ne
  | kept absent => exact absent
  | rebuilt _ _ _ fresh => exact absurd same (Nat.ne_of_gt (Nat.lt_of_lt_of_le lt fresh))

theorem Replaced.eq_of_forall₂_lacks {xs ys : List Plan}
    (h : List.Forall₂ (Replaced target replacement next) xs ys) (absent : ∀ x ∈ xs, target.Lacks x) :
    ys = xs := by
  induction h with
  | nil => rfl
  | cons head _ ih =>
    rw [head.eq_of_lacks (absent _ List.mem_cons_self), ih fun x hx => absent x (List.mem_cons_of_mem _ hx)]

theorem Replaced.lacks_of_map_id_eq (ne : replacement.id ≠ target.id) {xs ys : List Plan}
    (h : List.Forall₂ (Replaced target replacement next) xs ys) (lt : ∀ x ∈ xs, x.id < next)
    (same : ys.map id = xs.map id) : ∀ x ∈ xs, target.Lacks x := by
  induction h with
  | nil => simp
  | cons head _ ih =>
    simp only [List.map_cons, List.cons.injEq] at same
    obtain ⟨first, others⟩ := List.forall_mem_cons.1 lt
    exact List.forall_mem_cons.2 ⟨head.lacks_of_id_eq ne first same.1, ih others same.2⟩

/-- The plans `known` are built, and the identities below `next` are taken. -/
def Reached (next : NodeId) (known : List Plan) (w : Workspace) : Prop :=
  next ≤ w.nextNode ∧ ∃ built, w.Holds built ∧ known ⊆ built

theorem Reached.mono {known less : List Plan} {w : Workspace} (h : Reached next known w) (sub : less ⊆ known) :
    Reached next less w := by
  obtain ⟨later, built, holds, all⟩ := h
  exact ⟨later, built, holds, fun z hz => all (sub hz)⟩

theorem Reached.inputs {i : NodeId} {op : Operator} {xs : List Plan} {w : Workspace}
    (h : Reached next [replacement, node i op xs] w) : Reached next (replacement :: xs) w := by
  obtain ⟨later, built, holds, known⟩ := h
  refine ⟨later, built, holds, List.cons_subset.2 ⟨known List.mem_cons_self, fun x hx => ?_⟩⟩
  exact holds.inputs_mem (node i op xs) (known (by simp)) x hx

/-- A replacement keeps what is built. -/
theorem Reached.replace {w w' : Workspace} {known : List Plan} (h : Reached next known w)
    (sub : [replacement, p] ⊆ known) (later : next ≤ w'.nextNode)
    (returned : (replace target replacement p).Returns w q w') : Reached next known w' := by
  obtain ⟨-, built, holds, hknown⟩ := h
  obtain ⟨built', holds', keeps, -⟩ :=
    grows_replace target replacement p w q w' built returned holds fun z hz => hknown (sub hz)
  exact ⟨later, built', holds', fun z hz => keeps (hknown hz)⟩

/-- A replacement in the tree `p`, whose identities are below `next`. -/
theorem returns_replace (ne : replacement.id ≠ target.id) {w w' : Workspace}
    (old : p.Everywhere fun z => z.id < next) (reached : Reached next [replacement, p] w)
    (h : (replace target replacement p).Returns w q w') :
    next ≤ w'.nextNode ∧ Replaced target replacement next p q := by
  induction p generalizing q w w' with
  | node i op xs ih =>
    rw [replace_node] at h
    split at h
    · next same =>
      obtain ⟨rfl, rfl⟩ := Planner.returns_pure.1 h
      exact ⟨reached.1, .hit same⟩
    next other =>
    have oldInputs := (everywhere_node.1 old).2
    have sub {x : Plan} (hx : x ∈ xs) : [replacement, x] ⊆ replacement :: xs := by simp [hx]
    obtain ⟨ys, v, hys, h⟩ := Planner.returns_bind.1 h
    -- Each input is replaced in another workspace, so what is built has to be carried along.
    have each : ∀ x ∈ xs, ∀ u y u', Reached next (replacement :: xs) u →
        (replace target replacement x).Returns u y u' →
          Reached next (replacement :: xs) u' ∧ Replaced target replacement next x y := by
      intro x hx u y u' known hy
      obtain ⟨later, related⟩ := ih x hx (oldInputs x hx) (known.mono (sub hx)) hy
      exact ⟨known.replace (sub hx) later hy, related⟩
    obtain ⟨⟨hv, -⟩, inputs⟩ := Planner.forall₂_of_returns_mapM each reached.inputs hys
    split at h
    · next same =>
      obtain ⟨rfl, rfl⟩ := Planner.returns_pure.1 h
      refine ⟨hv, .kept (everywhere_node.2 ⟨other, Replaced.lacks_of_map_id_eq ne inputs ?_ same⟩)⟩
      exact fun x hx => (oldInputs x hx).root
    · next changed =>
      obtain ⟨-, rfl, rfl⟩ := returns_build.1 h
      refine ⟨Nat.le_succ_of_le hv, .rebuilt other ?_ inputs hv ?_⟩
      · by_contra none
        have absent : ∀ x ∈ xs, target.Lacks x := by simpa using none
        rw [Replaced.eq_of_forall₂_lacks inputs absent] at changed
        exact changed rfl
      · intro y hy z hz
        obtain ⟨-, built, holds, known⟩ := reached.inputs
        obtain ⟨built', holds', -, has⟩ := Planner.grows_mapM
          (fun x hx => (grows_replace target replacement x).mono (sub hx)) w ys v built hys holds known
        have hy : y ∈ built' := has (List.mem_flatMap.2 ⟨y, hy, List.mem_singleton_self y⟩)
        exact holds'.id_lt z (holds'.preorder_subset hy hz)

theorem reached_of_holds {w : Workspace} {built : List Plan} (holds : w.Holds built) (hp : p ∈ built)
    (hr : replacement ∈ built) :
    (p.Everywhere fun z => z.id < w.nextNode) ∧ Reached w.nextNode [replacement, p] w :=
  ⟨fun z hz => holds.id_lt z (holds.preorder_subset hp hz), Nat.le_refl _, built, holds, by simp [hp, hr]⟩

/-- What a replacement returns for built plans. -/
theorem replaced_of_returns {w w' : Workspace} {built : List Plan} (holds : w.Holds built) (hp : p ∈ built)
    (ht : target ∈ built) (hr : replacement ∈ built) (ne : replacement ≠ target)
    (h : (replace target replacement p).Returns w q w') : Replaced target replacement w.nextNode p q := by
  have other : replacement.id ≠ target.id := fun same => ne (holds.eq_of_id _ hr _ ht same)
  obtain ⟨old, reached⟩ := reached_of_holds holds hp hr
  exact (returns_replace other old reached h).2

section

variable {M : Type} [AddCommMonoid M] {f : Plan → M}

theorem sum_add_nsmul_of_forall₂ {a b : M} {k : Plan → Nat} {xs ys : List Plan}
    (h : List.Forall₂ (fun x y => y.total f + k x • a = x.total f + k x • b) xs ys) :
    (ys.map (total f)).sum + (xs.map k).sum • a = (xs.map (total f)).sum + (xs.map k).sum • b := by
  induction h with
  | nil => simp
  | @cons x y xs ys head _ ih =>
    simp only [List.map_cons, List.sum_cons, add_nsmul]
    rw [add_add_add_comm, head, ih, add_add_add_comm]

/-- A node stands at one place of itself. -/
theorem places_same_self (alone : p.Everywhere fun z => z.id = p.id → z = p) :
    p.places (·.same p) = 1 := by
  obtain ⟨i, op, xs⟩ := p
  have below : (xs.map (places (·.same (node i op xs)))).sum = 0 := by
    refine List.sum_eq_zero fun n hn => ?_
    obtain ⟨x, hx, rfl⟩ := List.mem_map.1 hn
    refine places_eq_zero fun z hz => decide_eq_false fun equal => ?_
    have whole := (everywhere_node.1 alone).2 x hx z hz equal
    exact not_mem_preorder_of_mem_inputs hx (whole ▸ hz)
  rw [places_node, below, if_pos (by simp [same])]

/-- Each place of the node loses what the node contributes and gains what the replacement does. -/
theorem Replaced.total_eq (h : Replaced target replacement next p q)
    (alone : p.Everywhere fun z => z.id = target.id → z = target)
    (rebuilt : ∀ i j op xs ys, f (node i op xs) = f (node j op ys)) :
    q.total f + p.places (·.same target) • target.total f =
      p.total f + p.places (·.same target) • replacement.total f := by
  induction p generalizing q with
  | node i op xs ih =>
    cases h with
    | hit same =>
      have whole : node i op xs = target := alone.root same
      subst whole
      rw [places_same_self alone, one_nsmul, one_nsmul, add_comm]
    | kept absent =>
      have none : (node i op xs).places (·.same target) = 0 := places_eq_zero fun z hz => by
        simp [same, absent z hz]
      rw [none, zero_nsmul, zero_nsmul]
    | @rebuilt _ j _ _ ys other found inputs =>
      have aloneInputs := (everywhere_node.1 alone).2
      have each := forall₂_imp_of_mem inputs fun x hx y hy => ih x hx hy (aloneInputs x hx)
      have root : (node i op xs).same target = false := by simp [same, other]
      rw [places_node, root, total_node, total_node, rebuilt i j op xs ys]
      simp only [Bool.false_eq_true, if_false, zero_add]
      rw [add_assoc, sum_add_nsmul_of_forall₂ each, add_assoc]

end

/-! ## The identities of semijoins -/

def ownJoinIds (p : Plan) : Multiset NodeId := if p.kind = .semiJoin then {p.id} else 0

/-- The identities of the semijoins, place by place. -/
def joinIds (p : Plan) : Multiset NodeId := p.total ownJoinIds

theorem mem_ownJoinIds {n : NodeId} : n ∈ p.ownJoinIds ↔ p.kind = .semiJoin ∧ p.id = n := by
  unfold ownJoinIds
  split
  · next kind => simp [kind, eq_comm]
  · next kind => simp [kind]

theorem nodup_ownJoinIds (p : Plan) : p.ownJoinIds.Nodup := by
  unfold ownJoinIds
  split <;> simp

theorem mem_joinIds {n : NodeId} : n ∈ p.joinIds ↔ ∃ z ∈ p.preorder, z.kind = .semiJoin ∧ z.id = n :=
  mem_total.trans (exists_congr fun _ => and_congr_right fun _ => mem_ownJoinIds)

theorem mem_joinIds_of_not_lacks (kind : target.kind = .semiJoin)
    (alone : p.Everywhere fun z => z.id = target.id → z = target) (present : ¬target.Lacks p) :
    target.id ∈ p.joinIds := by
  simp only [Lacks, Everywhere, not_forall, not_not] at present
  obtain ⟨z, hz, same⟩ := present
  exact mem_joinIds.2 ⟨z, hz, alone z hz same ▸ kind, same⟩

theorem not_mem_joinIds_of_lacks (absent : target.Lacks p) : target.id ∉ p.joinIds := by
  intro present
  obtain ⟨z, hz, -, same⟩ := mem_joinIds.1 present
  exact absent z hz same

/-- If the node stands at one place at most, only one input gives way to another. -/
theorem Replaced.exists_split {xs ys : List Plan} (kind : target.kind = .semiJoin)
    (h : List.Forall₂ (Replaced target replacement next) xs ys)
    (alone : ∀ x ∈ xs, x.Everywhere fun z => z.id = target.id → z = target)
    (found : ∃ x ∈ xs, ¬target.Lacks x) (once : (xs.map joinIds).sum.Nodup) :
    ∃ l x y r, xs = l ++ x :: r ∧ ys = l ++ y :: r ∧ Replaced target replacement next x y ∧
      ¬target.Lacks x := by
  induction h with
  | nil => simp at found
  | @cons x y xs ys head rest ih =>
    obtain ⟨aloneHead, aloneRest⟩ := List.forall_mem_cons.1 alone
    rw [List.map_cons, List.sum_cons, Multiset.nodup_add] at once
    by_cases absent : target.Lacks x
    · have foundRest : ∃ z ∈ xs, ¬target.Lacks z := by simpa [absent] using found
      obtain ⟨l, x', y', r, rfl, rfl, related, present⟩ := ih aloneRest foundRest once.2.1
      exact ⟨x :: l, x', y', r, rfl, by rw [head.eq_of_lacks absent]; rfl, related, present⟩
    · have others : ∀ z ∈ xs, target.Lacks z := by
        intro z hz
        by_contra present
        have inRest : target.id ∈ (xs.map joinIds).sum :=
          mem_sum_total.2 ⟨z, hz, mem_joinIds_of_not_lacks kind (aloneRest z hz) present⟩
        exact Multiset.disjoint_left.1 once.2.2 (mem_joinIds_of_not_lacks kind aloneHead absent) inRest
      exact ⟨[], x, y, xs, rfl, by rw [Replaced.eq_of_forall₂_lacks rest others]; rfl, head, absent⟩

/-- If part of a sum loses an element and gains others, and the first summand is exchanged, the sum
gains at most the others and the new summand. -/
theorem add_le_erase_add {a : NodeId} {x x' l r ns own own' : Multiset NodeId} (hit : a ∈ x)
    (le : x' ≤ x.erase a + ns) :
    own' + (l + (x' + r)) ≤ (own + (l + (x + r))).erase a + (own' + ns) := by
  have inRest : a ∈ x + r := by simp [hit]
  have inInputs : a ∈ l + (x + r) := by simp [hit]
  rw [Multiset.erase_add_right_pos _ inInputs, Multiset.erase_add_right_pos _ inRest,
    Multiset.erase_add_left_pos _ hit]
  calc own' + (l + (x' + r)) ≤ own' + (l + (x.erase a + ns + r)) := by gcongr
    _ ≤ own + (own' + (l + (x.erase a + ns + r))) := Multiset.le_add_left _ _
    _ = own + (l + (x.erase a + r)) + (own' + ns) := by abel

/-- A semijoin that stands at one place at most leaves the tree; the semijoins above it are built
again with identities of their own. -/
theorem Replaced.exists_joinIds_le (h : Replaced target replacement next p q)
    (kind : target.kind = .semiJoin) (alone : p.Everywhere fun z => z.id = target.id → z = target)
    (once : p.joinIds.Nodup) (less : target.joinIds = {target.id} + replacement.joinIds) :
    ∃ ns : Multiset NodeId, ns.Nodup ∧ (∀ n ∈ ns, next ≤ n ∧ ∃ z ∈ q.preorder, z.id = n) ∧
      q.joinIds ≤ p.joinIds.erase target.id + ns := by
  induction p generalizing q with
  | node i op xs ih =>
    cases h with
    | hit same =>
      have whole : node i op xs = target := alone.root same
      refine ⟨0, by simp, by simp, ?_⟩
      rw [whole, less, Multiset.singleton_add, Multiset.erase_cons_head, add_zero]
    | kept absent =>
      refine ⟨0, by simp, by simp, ?_⟩
      rw [Multiset.erase_of_notMem (not_mem_joinIds_of_lacks absent), add_zero]
    | @rebuilt _ j _ _ ys other found inputs fresh newest =>
      have old : (node i op xs).joinIds = ownJoinIds (node i op xs) + (xs.map joinIds).sum := total_node _ _ _
      have new : (node j op ys).joinIds = ownJoinIds (node j op ys) + (ys.map joinIds).sum := total_node _ _ _
      rw [old, Multiset.nodup_add] at once
      have aloneInputs := (everywhere_node.1 alone).2
      obtain ⟨l, x, y, r, rfl, rfl, related, present⟩ :=
        Replaced.exists_split kind inputs aloneInputs found once.2.1
      have hx : x ∈ l ++ x :: r := by simp
      have hy : y ∈ l ++ y :: r := by simp
      simp only [List.map_append, List.map_cons, List.sum_append, List.sum_cons] at old new once
      have onceBelow : x.joinIds.Nodup := (Multiset.nodup_add.1 (Multiset.nodup_add.1 once.2.1).2.1).1
      have hit := mem_joinIds_of_not_lacks kind (aloneInputs x hx) present
      obtain ⟨ns, nodup, taken, le⟩ := ih x hx related (aloneInputs x hx) onceBelow
      refine ⟨ownJoinIds (node j op (l ++ y :: r)) + ns, ?_, ?_, ?_⟩
      · refine Multiset.nodup_add.2 ⟨nodup_ownJoinIds _, nodup, Multiset.disjoint_left.2 fun hn below => ?_⟩
        obtain ⟨-, z, hz, rfl⟩ := taken _ below
        exact absurd (mem_ownJoinIds.1 hn).2 (Nat.ne_of_gt (newest y hy z hz))
      · intro n hn
        rcases Multiset.mem_add.1 hn with hn | hn
        · obtain rfl : j = n := (mem_ownJoinIds.1 hn).2
          exact ⟨fresh, _, self_mem_preorder _, rfl⟩
        · obtain ⟨later, z, hz, same⟩ := taken n hn
          exact ⟨later, z, mem_preorder_node.2 (.inr ⟨y, hy, hz⟩), same⟩
      · rw [old, new]
        exact add_le_erase_add hit le

theorem Replaced.nodup_joinIds (h : Replaced target replacement next p q) (kind : target.kind = .semiJoin)
    (alone : p.Everywhere fun z => z.id = target.id → z = target)
    (old : p.Everywhere fun z => z.id < next) (lt : target.id < next) (once : p.joinIds.Nodup)
    (less : target.joinIds = {target.id} + replacement.joinIds) :
    q.joinIds.Nodup ∧ ∀ n ∈ q.joinIds, n ≠ target.id ∧ (n ∈ p.joinIds ∨ next ≤ n) := by
  obtain ⟨ns, nodup, taken, le⟩ := h.exists_joinIds_le kind alone once less
  constructor
  · refine Multiset.nodup_of_le le (Multiset.nodup_add.2 ⟨once.erase _, nodup, ?_⟩)
    refine Multiset.disjoint_left.2 fun before after => ?_
    obtain ⟨z, hz, -, rfl⟩ := mem_joinIds.1 (Multiset.mem_of_mem_erase before)
    exact Nat.not_lt_of_le (taken _ after).1 (old z hz)
  · intro n hn
    rcases Multiset.mem_add.1 (Multiset.mem_of_le le hn) with before | after
    · obtain ⟨ne, before⟩ := once.mem_erase_iff.1 before
      exact ⟨ne, .inl before⟩
    · have later := (taken n after).1
      exact ⟨Nat.ne_of_gt (Nat.lt_of_lt_of_le lt later), .inr later⟩

theorem places_same_le_count (kind : target.kind = .semiJoin)
    (alone : p.Everywhere fun z => z.id = target.id → z = target) :
    p.places (·.same target) ≤ p.joinIds.count target.id := by
  unfold places joinIds total
  revert alone
  unfold Everywhere
  induction p.preorder with
  | nil => simp
  | cons z zs ih =>
    intro alone
    obtain ⟨head, others⟩ := List.forall_mem_cons.1 alone
    rw [List.countP_cons, List.map_cons, List.sum_cons, Multiset.count_add, Nat.add_comm]
    refine Nat.add_le_add ?_ (ih others)
    split
    · next same =>
      have same : z.id = target.id := of_decide_eq_true same
      exact Multiset.one_le_count_iff_mem.2 (mem_ownJoinIds.2 ⟨head same ▸ kind, same⟩)
    · exact Nat.zero_le _

/-- Where a semijoin stands at one place at most, only the parameters that the replacement has over it
are added. -/
theorem Replaced.params_le (h : Replaced target replacement next p q) (kind : target.kind = .semiJoin)
    (alone : p.Everywhere fun z => z.id = target.id → z = target) (once : p.joinIds.Nodup)
    {new kept : Multiset ParamId} (le : kept ≤ target.params) (eq : replacement.params = new + kept) :
    q.params ≤ p.params + new := by
  have exchanged := h.total_eq (f := ownParams) alone fun _ _ _ _ _ => rfl
  have few : p.places (·.same target) ≤ 1 :=
    (places_same_le_count kind alone).trans (Multiset.nodup_iff_count_le_one.1 once _)
  rcases Nat.le_one_iff_eq_zero_or_eq_one.1 few with none | one
  · rw [none, zero_nsmul, zero_nsmul, add_zero, add_zero] at exchanged
    exact exchanged.trans_le (Multiset.le_add_right _ _)
  · rw [one, one_nsmul, one_nsmul] at exchanged
    change q.params + target.params = p.params + replacement.params at exchanged
    have sum : q.params + target.params ≤ p.params + new + target.params := by
      rw [exchanged, eq, ← add_assoc]
      gcongr
    exact le_of_add_le_add_right sum

end Plan

/-- Applying an alternative replaces its semijoin wherever it stands, and nothing else has the
identity of the semijoin. -/
theorem replaced_of_apply {a : Alternative} {r : SemiJoinRule} {m : ScanSemiJoin} {c : Candidate}
    {w w' : Workspace} {built : List Plan} {p q : Plan} (holds : w.Holds built) (hp : p ∈ built)
    (hm : a.matched ∈ built) (hr : a.replacement ∈ built) (matched : a.matched = m.plan)
    (rewrites : r.Rewrites m c a.replacement) (applied : (a.apply p).Returns w q w') :
    a.matched.Replaced a.replacement w.nextNode p q ∧
      p.Everywhere fun z => z.id = a.matched.id → z = a.matched := by
  have other : a.replacement ≠ a.matched := by
    intro same
    have kind := rewrites.kind_eq
    rw [same, matched] at kind
    cases kind
  exact ⟨Plan.replaced_of_returns holds hp hm hr other applied, holds.alone hp hm⟩

end QueryPlan
