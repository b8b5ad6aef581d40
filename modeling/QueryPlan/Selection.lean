import QueryPlan.KeyAssignment
import QueryPlan.Table

/-!
# Choosing an index

Among the indexes offered, the first one whose keys match the most join columns is chosen. A search that may
exit early looks no further than the first index that matches them all.
-/
namespace QueryPlan

/-- An index together with the join keys assigned to it. -/
structure Candidate where
  index : Index
  assignment : KeyAssignment
deriving DecidableEq

namespace Candidate

def ofIndex (joinCols : List ColumnId) (index : Index) : Candidate := ⟨index, .ofKeys index.keys joinCols⟩

/-- The number of leading index keys matched. -/
def size (c : Candidate) : Nat := c.assignment.length

end Candidate

/-- The outcome of a search: the indexes looked at, in order, and the one chosen. -/
structure Selection where
  examined : List Candidate
  choice : Option Candidate
deriving DecidableEq

namespace Selection

/-- Continues a search with the `best` candidate so far. -/
def resume (joinCols : List ColumnId) (earlyExit : Bool) (best : Option Candidate) :
    List Index → Selection
  | [] => ⟨[], best⟩
  | index :: rest =>
    let c := Candidate.ofIndex joinCols index
    if best.elim 0 Candidate.size < c.size then
      if c.size = joinCols.length && earlyExit then ⟨[c], some c⟩
      else
        let s := resume joinCols earlyExit (some c) rest
        ⟨c :: s.examined, s.choice⟩
    else
      let s := resume joinCols earlyExit best rest
      ⟨c :: s.examined, s.choice⟩

def ofIndexes (indexes : List Index) (joinCols : List ColumnId) (earlyExit : Bool) : Selection :=
  resume joinCols earlyExit none indexes

end Selection

end QueryPlan
