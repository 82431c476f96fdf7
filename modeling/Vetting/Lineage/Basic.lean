import Vetting.Fault
import Vetting.Lineage.Linearization

/-!
# Lineages

A lineage knows, for each declared type, the chain of the type itself and its
ancestors, nearest first, and for some types the origin that they stand in for.
A chain is fixed when its type is declared: a parent that has none at that time
counts as a root, whatever is declared later.
-/

namespace Vetting

structure Lineage where
  chains : Table TypeKey (List TypeKey)
  origins : Table TypeKey TypeKey

namespace Lineage

instance : EmptyCollection Lineage := ⟨⟨∅, ∅⟩⟩

def contains (l : Lineage) (ty : TypeKey) : Bool := l.chains.contains ty

/-- The type and its ancestors, nearest first. -/
def chain? (l : Lineage) (ty : TypeKey) : Option (List TypeKey) := l.chains.get? ty

/-- The type that `ty` stands in for. -/
def origin? (l : Lineage) (ty : TypeKey) : Option TypeKey := l.origins.get? ty

def contribution (l : Lineage) (parent : TypeKey) : List TypeKey := (l.chain? parent).getD [parent]

def declare (l : Lineage) (ty : TypeKey) (parents : List TypeKey) :
    Except (Rejection Lineage) (List TypeKey × Lineage) :=
  if ty ∈ parents then .error ⟨.conflict (.selfParent ty), l⟩
  else if l.contains ty then .error ⟨.conflict (.declaredTwice ty), l⟩
  else match Linearization.merge (parents.map l.contribution ++ [parents]) with
    | none => .error ⟨.conflict (.noLinearization ty), l⟩
    | some tail => .ok (ty :: tail, ⟨l.chains.set ty (ty :: tail), l.origins⟩)

def standIn (l : Lineage) (ty origin : TypeKey) : Except (Rejection Lineage) Lineage :=
  if ty = origin then .error ⟨.conflict (.selfStandIn ty), l⟩
  else .ok ⟨l.chains, l.origins.set ty origin⟩

end Lineage

end Vetting
