import Vetting.Json.Reader
import Vetting.Keys

/-!
# Records

A record is an object whose type is chosen at run time. Its values are read by
field, as they are, as text or as a whole number of 64 bits.
-/

namespace Vetting

structure Record where
  type : TypeKey
  values : NameMap Json

namespace Record

instance : Typed Record := ⟨Record.type⟩

def get? (r : Record) (field : String) : Option Json := r.values.get? field

def has (r : Record) (field : String) : Bool := r.values.contains field

def text? (r : Record) (field : String) : Option String :=
  match r.get? field with
  | some (.string s) => some s
  | _ => none

def int? (r : Record) (field : String) : Option Int :=
  match r.get? field with
  | some (.number (.whole n)) => if Word.fits n then some n else none
  | _ => none

end Record

end Vetting
