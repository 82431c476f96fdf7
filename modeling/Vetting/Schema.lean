import Vetting.Field.Source
import Vetting.Lineage.Basic

/-!
# Schemas

A schema holds what is known about types: their lineage, and their shapes in a
book that counts how often it is asked. Rule books over one schema ask the book
itself, or through a memo that they share.
-/

namespace Vetting

structure Schema where
  lineage : Lineage
  shapes : ShapeBook
  asked : Nat
  memo : ShapeMemo

namespace Schema

instance : EmptyCollection Schema := ⟨⟨∅, ∅, 0, ∅⟩⟩

def book : ShapeSource Schema :=
  ShapeBook.source.within Schema.shapes fun s shapes => { s with shapes }

def counted : ShapeSource Schema :=
  ShapeBook.source.counted.within (fun s => (s.asked, s.shapes))
    fun s (asked, shapes) => { s with asked, shapes }

def memoised : ShapeSource Schema :=
  ShapeBook.source.counted.memoised.within (fun s => (s.memo, s.asked, s.shapes))
    fun s (memo, asked, shapes) => { s with memo, asked, shapes }

end Schema

end Vetting
