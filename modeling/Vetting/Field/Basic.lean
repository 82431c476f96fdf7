import Vetting.Fault

/-!
# Fields and shapes

A shape is the list of fields of one object type, in the order of declaration.
A field has an identifier, the alias it goes by outside, and the name it was
declared under. A reference is resolved by identifier first and by declared
name second.
-/

namespace Vetting

structure Field where
  name : String
  label : String
  /-- The name that rules may use for the field. -/
  declared : String
  initOnly : Bool
deriving DecidableEq

inductive Direction where
  | reading
  | writing
deriving DecidableEq

structure Shape where
  fields : List Field
deriving DecidableEq

namespace Field

def named (name : String) : Field := ⟨name, name, name, false⟩

def ref (f : Field) : FieldRef := ⟨f.name⟩

def toJson (f : Field) : Json := .object
  [("name", .string f.name), ("alias", .string f.label), ("declared_name", .string f.declared),
    ("init_only", .bool f.initOnly)]

/-- `depth` is the number of containers that may be opened. -/
def ofJson? (depth : Nat) (j : Json) : Option Field :=
  match j.parts? depth ["name", "alias", "declared_name", "init_only"] with
  | some [some name, some label, some declared, initOnly] => do
    pure ⟨← name.asString?, ← label.asString?, ← declared.asString?,
      ← (initOnly.getD (.bool false)).asBool?⟩
  | _ => none

def read? (s : String) : Option Field := (Json.parse? s).bind (ofJson? Json.depthLimit)

end Field

namespace Shape

instance : EmptyCollection Shape := ⟨⟨[]⟩⟩

def names (s : Shape) : List String := s.fields.map Field.name

def labels (s : Shape) : List String := s.fields.map Field.label

def get? (s : Shape) (name : String) : Option Field := s.fields.find? (·.name = name)

def declared? (s : Shape) (name : String) : Option Field := s.fields.find? (·.declared = name)

def resolve? (s : Shape) (name : String) : Option Field := (s.get? name).or (s.declared? name)

/-- The identifier that a name stands for; a name that stands for none is kept. -/
def identify (s : Shape) (name : String) : String := ((s.resolve? name).map Field.name).getD name

theorem get?_eq_none_iff {s : Shape} {a : String} : s.get? a = none ↔ a ∉ s.names := by
  rw [get?, List.find?_eq_none]
  simp [names]

theorem name_of_get? {s : Shape} {a : String} {f : Field} (h : s.get? a = some f) : f.name = a := by
  simpa using List.find?_some h

theorem name_mem_of_resolve? {s : Shape} {a : String} {f : Field} (h : s.resolve? a = some f) :
    f.name ∈ s.names := by
  apply List.mem_map_of_mem
  rcases Option.or_eq_some_iff.1 h with hget | ⟨-, hdeclared⟩
  · exact List.mem_of_find?_eq_some hget
  · exact List.mem_of_find?_eq_some hdeclared

theorem identify_of_mem {s : Shape} {a : String} (h : a ∈ s.names) : s.identify a = a := by
  cases hget : s.get? a with
  | none => exact absurd h (get?_eq_none_iff.1 hget)
  | some f =>
    rw [identify, resolve?, hget]
    exact name_of_get? hget

theorem identify_cases (s : Shape) (a : String) :
    (∃ f, s.resolve? a = some f ∧ s.identify a = f.name ∧ s.identify a ∈ s.names) ∨
      s.resolve? a = none ∧ s.identify a = a ∧ a ∉ s.names := by
  unfold identify
  cases h : s.resolve? a with
  | some f => exact Or.inl ⟨f, rfl, rfl, name_mem_of_resolve? h⟩
  | none => exact Or.inr ⟨rfl, rfl, get?_eq_none_iff.1 (Option.or_eq_none_iff.1 h).1⟩

theorem identify_identify (s : Shape) (a : String) :
    s.identify (s.identify a) = s.identify a := by
  rcases s.identify_cases a with ⟨f, -, -, hmem⟩ | ⟨-, hkept, -⟩
  · exact identify_of_mem hmem
  · rw [hkept, hkept]

def add (s : Shape) (f : Field) : Except Fault Shape :=
  if (s.get? f.name).isSome then .error (.conflict (.duplicateField f.name))
  else .ok ⟨s.fields ++ [f]⟩

def ofFields (fs : List Field) : Except Fault Shape := fs.foldlM add ∅

def facing (s : Shape) : Direction → Shape
  | .reading => s
  | .writing => ⟨s.fields.filter (!·.initOnly)⟩

def toJson (s : Shape) : Json := .array (s.fields.map Field.toJson)

def ofJson? (j : Json) : Option Shape := do
  let items ← j.items? Json.depthLimit
  pure ⟨← items.mapM (Field.ofJson? (Json.depthLimit - 1))⟩

/-- The shape that a text spells. Identifiers may repeat. -/
def read? (s : String) : Option Shape := (Json.parse? s).bind ofJson?

end Shape

end Vetting
