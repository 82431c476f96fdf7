import Vetting.Json.Typed
import Vetting.Text.Shown

/-!
# Keys of types and references to fields

An object type is known by its key alone. A field is referred to by a name,
which may be its identifier or the name it was declared under.
-/

namespace Vetting

structure TypeKey where
  name : String
deriving DecidableEq

structure FieldRef where
  name : String
deriving DecidableEq

instance : Coe String TypeKey := ⟨TypeKey.mk⟩

instance : Coe String FieldRef := ⟨FieldRef.mk⟩

namespace TypeKey

def toJson (ty : TypeKey) : Json := .string ty.name

def shown (ty : TypeKey) : Shown := .wrapped "TypeKey" (.quoted ty.name)

def read? (s : String) : Option TypeKey := (Json.parse? s).bind fun j => j.asString?.map mk

end TypeKey

class Typed (ι : Type) where
  typeOf : ι → TypeKey

namespace FieldRef

def toJson (r : FieldRef) : Json := .string r.name

def shown (r : FieldRef) : Shown := .wrapped "FieldRef" (.quoted r.name)

def read? (s : String) : Option FieldRef := (Json.parse? s).bind fun j => j.asString?.map mk

def sort (l : List FieldRef) : List FieldRef := l.mergeSort fun a b => a.name ≤ b.name

end FieldRef

end Vetting
