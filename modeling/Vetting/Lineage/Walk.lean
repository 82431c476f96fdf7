import Vetting.Lineage.Basic

/-!
# Walking over stand-ins

From a type the walk goes to the type that it stands in for, and so on. It ends
at a type that stands in for none, or where the next type was visited before.
Only finitely many types stand in for another, so it ends.
-/

namespace Vetting

namespace Lineage

def unvisited (l : Lineage) (visited : List TypeKey) : Nat :=
  (l.origins.keys.filter (· ∉ visited)).length

theorem unvisited_lt {l : Lineage} {visited : List TypeKey} {ty origin : TypeKey}
    (h : l.origin? ty = some origin) (hv : ty ∉ visited) :
    l.unvisited (ty :: visited) < l.unvisited visited := by
  have hf : l.origins.keys.filter (· ∉ ty :: visited) =
      (l.origins.keys.filter (· ∉ visited)).filter (· ≠ ty) := by
    rw [List.filter_filter]
    exact List.filter_congr fun a _ => by simp
  rw [unvisited, unvisited, hf, List.length_filter_lt_length_iff_exists]
  exact ⟨ty, List.mem_filter.2 ⟨Table.mem_keys_of_get? h, by simpa using hv⟩, by simp⟩

/-- The types from `ty` on, as far as one that was visited; that one as well, if there is one. -/
def walkFrom (l : Lineage) (visited : List TypeKey) (ty : TypeKey) :
    List TypeKey × Option TypeKey :=
  if hv : ty ∈ visited then ([], some ty)
  else match h : l.origin? ty with
    | none => ([ty], none)
    | some origin =>
      have := unvisited_lt h hv
      let (path, repeated) := l.walkFrom (ty :: visited) origin
      (ty :: path, repeated)
termination_by l.unvisited visited

def walk (l : Lineage) (ty : TypeKey) : List TypeKey × Option TypeKey := l.walkFrom [] ty

end Lineage

end Vetting
