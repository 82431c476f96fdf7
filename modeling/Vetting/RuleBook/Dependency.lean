import Vetting.Field.Source
import Vetting.Rule.Basic

/-!
# What rules depend on

A dependency source tells which fields of the owner a rule reads. It may ask a
source of shapes, and never fails: when it knows nothing it answers with no
fields.
-/

namespace Vetting

structure DependencySource (σ : Type) where
  ask : TypeKey → RuleInfo → StateM σ NameSet

namespace DependencySource

variable {σ : Type}

def declared : DependencySource σ := ⟨fun _ info => pure info.reads⟩

/-- The identifiers of those reads that are fields of the owner. -/
def known (shapes : ShapeSource σ) : DependencySource σ where
  ask owner info := fun s =>
    match shapes.ask owner .reading s with
    | (.error _, s) => (∅, s)
    | (.ok shape, s) =>
      (info.reads.filterMap fun name => (shape.resolve? name).map Field.name, s)

def shownKnown : Shown := .hidden "KnownFieldDependencies"

def fixed (table : Table String NameSet) : DependencySource σ :=
  ⟨fun _ info => pure ((table.get? info.name).getD ∅)⟩

end DependencySource

end Vetting
