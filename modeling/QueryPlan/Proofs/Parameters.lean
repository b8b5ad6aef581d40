import Mathlib.Data.List.Nodup
import QueryPlan.Proofs.Nodes

/-!
# Parameters

Requests for parameters are numbered in order, and the numbers start again at zero after the largest one, so
any 2^32 consecutive ones are distinct. Building nodes, reports and checks take none
(`Planner.KeepsParams`); only merges and new groups do.
-/
namespace QueryPlan

namespace Id

variable {entity : Entity}

@[ext] theorem ext_toNat {i j : Id entity} (h : i.toNat = j.toNat) : i = j := by
  cases i; cases j
  exact congrArg Id.mk (UInt32.toNat_inj.1 h)

/-- The id `n` places after `i`. -/
def advance (i : Id entity) (n : Nat) : Id entity := ⟨i.val + UInt32.ofNat n⟩

theorem toNat_advance (i : Id entity) (n : Nat) :
    (i.advance n).toNat = (i.toNat + n) % 4294967296 := by
  simp [advance, toNat, UInt32.toNat_add]

@[simp] theorem advance_zero (i : Id entity) : i.advance 0 = i := by
  have lt : i.toNat < 4294967296 := i.val.toNat_lt
  apply ext_toNat
  rw [toNat_advance]
  exact Nat.mod_eq_of_lt lt

theorem next_eq_advance (i : Id entity) : i.next = i.advance 1 := rfl

@[simp] theorem advance_advance (i : Id entity) (m n : Nat) :
    (i.advance m).advance n = i.advance (m + n) := by
  apply ext_toNat
  simp only [toNat_advance]
  omega

theorem advance_inj {i : Id entity} {m n : Nat} (hm : m < 4294967296) (hn : n < 4294967296) :
    i.advance m = i.advance n ↔ m = n := by
  constructor
  · intro h
    have same := congrArg toNat h
    simp only [toNat_advance] at same
    omega
  · rintro rfl
    rfl

/-- The first `n` ids from `first` on. -/
def consecutive (first : Id entity) (n : Nat) : List (Id entity) := (List.range n).map first.advance

theorem consecutive_add (first : Id entity) (m n : Nat) :
    first.consecutive (m + n) = first.consecutive m ++ (first.advance m).consecutive n := by
  simp [consecutive, List.range_add, Function.comp_def]

theorem consecutive_subset_add (first : Id entity) (m n : Nat) :
    first.consecutive m ⊆ first.consecutive (m + n) := by
  rw [consecutive_add]
  exact List.subset_append_left _ _

theorem nodup_consecutive (first : Id entity) {n : Nat} (h : n ≤ 4294967296) :
    (first.consecutive n).Nodup := by
  refine List.Nodup.map_on ?_ List.nodup_range
  intro k hk l hl same
  have hk := List.mem_range.1 hk
  have hl := List.mem_range.1 hl
  exact (advance_inj (by omega) (by omega)).1 same

end Id

namespace ParamAllocator

/-- The parameters that are handed out for `n` requests from the one numbered `first` on. -/
def issued [ParamAllocator] (first : ParamId) (n : Nat) : List ParamId := (first.consecutive n).map issue

@[simp] theorem issued_counter (first : ParamId) (n : Nat) : issued first n = first.consecutive n :=
  List.map_id _

end ParamAllocator

/-- The parameters that belong to the operator alone: the limit of a merge, the group of an
intersection. -/
def Operator.params : Operator → List ParamId
  | .ixMerge _ limit => [limit]
  | .ixIntersect group => [group.startRid, group.rowLimit]
  | _ => []

namespace Planner

variable {α β : Type}

/-- The step takes no parameter. -/
def KeepsParams (m : Planner α) : Prop := ∀ w a w', m.Returns w a w' → w'.nextParam = w.nextParam

theorem keepsParams_pure (a : α) : (pure a : Planner α).KeepsParams := by
  intro w b w' h
  rw [(returns_pure.1 h).2]

theorem keepsParams_ofExcept (r : Except PlanError α) : (ofExcept r).KeepsParams := by
  intro w a w' h
  rw [(returns_ofExcept.1 h).2]

theorem keepsParams_report (e : Event) : (report e).KeepsParams := by
  intro w a w' h
  rw [returns_report.1 h]

theorem KeepsParams.bind {m : Planner α} {f : α → Planner β} (h : m.KeepsParams)
    (rest : ∀ a, (f a).KeepsParams) : (m >>= f).KeepsParams := by
  intro w b w' hb
  obtain ⟨a, v, first, second⟩ := returns_bind.1 hb
  rw [rest a v b w' second, h w a v first]

theorem keepsParams_forM {f : α → Planner Unit} {xs : List α} (h : ∀ x ∈ xs, (f x).KeepsParams) :
    (xs.forM f).KeepsParams := by
  induction xs with
  | nil => exact keepsParams_pure ()
  | cons x xs ih => exact (h x (by simp)).bind fun _ => ih fun z hz => h z (by simp [hz])

theorem keepsParams_mapM {f : α → Planner β} {xs : List α} (h : ∀ x ∈ xs, (f x).KeepsParams) :
    (xs.mapM f).KeepsParams := by
  induction xs with
  | nil => exact keepsParams_pure []
  | cons x xs ih =>
    rw [List.mapM_cons]
    refine (h x (by simp)).bind fun y => ?_
    exact (ih fun z hz => h z (by simp [hz])).bind fun ys => keepsParams_pure (y :: ys)

/-- The step takes `cost a` parameters where it returns `a`, and none where it fails. -/
structure Spends (m : Planner α) (cost : α → Nat) : Prop where
  returned : ∀ w a w', m.Returns w a w' → w'.nextParam = w.nextParam.advance (cost a)
  failed : ∀ w e w', m.Fails w e w' → w'.nextParam = w.nextParam

theorem spends_pure {a : α} {cost : α → Nat} (free : cost a = 0) : (pure a : Planner α).Spends cost where
  returned w b w' h := by
    obtain ⟨rfl, rfl⟩ := returns_pure.1 h
    rw [free, Id.advance_zero]
  failed _ _ _ h := by cases h

theorem spends_ofExcept (r : Except PlanError α) : (ofExcept r).Spends fun _ => 0 where
  returned w a w' h := by rw [(returns_ofExcept.1 h).2, Id.advance_zero]
  failed w e w' h := by rw [(fails_ofExcept.1 h).2]

/-- Nothing is spent where nothing fails and no parameter is taken. -/
theorem Succeeds.spends {m : Planner α} (h : m.Succeeds) (keeps : m.KeepsParams) :
    m.Spends fun _ => 0 where
  returned w a w' returned := by rw [keeps w a w' returned, Id.advance_zero]
  failed _ _ _ failed := absurd failed h.not_fails

theorem spends_report (e : Event) : (report e).Spends fun _ => 0 :=
  (succeeds_report e).spends (keepsParams_report e)

/-- After steps that take no parameter only the last one counts. -/
theorem Spends.bind {m : Planner α} {f : α → Planner β} {cost : β → Nat} (h : m.Spends fun _ => 0)
    (rest : ∀ a, m.Yields a → (f a).Spends cost) : (m >>= f).Spends cost where
  returned w b w' hb := by
    obtain ⟨a, v, first, second⟩ := returns_bind.1 hb
    rw [(rest a first.yields).returned v b w' second, h.returned w a v first, Id.advance_zero]
  failed w e w' he := by
    obtain first | ⟨a, v, first, second⟩ := fails_bind.1 he
    · exact h.failed w e w' first
    · rw [(rest a first.yields).failed v e w' second, h.returned w a v first, Id.advance_zero]

/-- Once parameters are taken nothing may fail any more. -/
theorem Spends.bind_succeeds {m : Planner α} {f : α → Planner β} {spent : α → Nat} {cost : β → Nat}
    (h : m.Spends spent) (rest : ∀ a, m.Yields a → (f a).Succeeds) (keeps : ∀ a, (f a).KeepsParams)
    (same : ∀ a b, (f a).Yields b → cost b = spent a) : (m >>= f).Spends cost where
  returned w b w' hb := by
    obtain ⟨a, v, first, second⟩ := returns_bind.1 hb
    rw [keeps a v b w' second, h.returned w a v first, same a b second.yields]
  failed w e w' he := by
    obtain first | ⟨a, v, first, second⟩ := fails_bind.1 he
    · exact h.failed w e w' first
    · exact absurd second (rest a first.yields).not_fails

end Planner

theorem Plan.keepsParams_build (op : Operator) (inputs : List Plan) : (build op inputs).KeepsParams := by
  intro w p w' h
  obtain ⟨-, -, rfl⟩ := returns_build.1 h
  rfl

end QueryPlan
