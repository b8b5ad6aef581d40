/-!
# Identifiers

Column ids are 16-bit words; table, index, parameter and connection ids are 32-bit words.
Integers enter modulo the width of the word.
-/
namespace QueryPlan

/-- The position of a column in its table, or of a field in a row. -/
structure ColumnId where
  val : UInt16
deriving DecidableEq, Ord, Inhabited

namespace ColumnId

def ofNat (n : Nat) : ColumnId := ⟨UInt16.ofNat n⟩

def ofInt (n : Int) : ColumnId := ⟨UInt16.ofInt n⟩

def toNat (c : ColumnId) : Nat := c.val.toNat

instance : ToString ColumnId := ⟨fun c => toString c.toNat⟩

@[simp] theorem toNat_ofNat (n : Nat) : (ofNat n).toNat = n % 65536 := rfl

theorem toNat_lt (c : ColumnId) : c.toNat < 65536 := c.val.toNat_lt

@[ext] theorem ext_toNat {c d : ColumnId} (h : c.toNat = d.toNat) : c = d := by
  cases c; cases d
  exact congrArg ColumnId.mk (UInt16.toNat_inj.1 h)

end ColumnId

/-- The things that carry a 32-bit id. -/
inductive Entity | table | index | parameter | connection
deriving DecidableEq

/-- An id of one kind of entity; ids of different entities do not mix. -/
structure Id (entity : Entity) where
  val : UInt32
deriving DecidableEq, Ord, Inhabited

abbrev TableId := Id .table
abbrev IndexId := Id .index
abbrev ParamId := Id .parameter
abbrev ConnectionId := Id .connection

namespace Id

variable {entity : Entity}

def ofNat (n : Nat) : Id entity := ⟨UInt32.ofNat n⟩

def ofInt (n : Int) : Id entity := ⟨UInt32.ofInt n⟩

def toNat (i : Id entity) : Nat := i.val.toNat

/-- The id after `i`; the largest id is followed by zero. -/
def next (i : Id entity) : Id entity := ⟨i.val + 1⟩

instance : ToString (Id entity) := ⟨fun i => toString i.toNat⟩

end Id

end QueryPlan
