import Vetting.Rule.Basic

/-!
# Drafts

A draft gathers what is declared about a rule and is built once the check is
there. Options that are given again replace what was given before, except that
reads add up. A rule that names a target and no discards discards its target.
-/

namespace Vetting

structure DraftOptions where
  target : Option FieldRef
  /-- Nothing given means the target; an empty list means no discards. -/
  discards : Option (List FieldRef)
  owner : Option TypeKey
  reads : NameSet

structure Draft where
  name : String
  signature : Signature
  options : DraftOptions

namespace Draft

instance : EmptyCollection DraftOptions := ⟨⟨none, none, none, ∅⟩⟩

def ofSignature (name : String) (signature : Signature) : Draft := ⟨name, signature, ∅⟩

def rename (d : Draft) (name : String) : Draft := { d with name }

def target (d : Draft) (field : FieldRef) : Draft :=
  { d with options := { d.options with target := some field } }

def discards (d : Draft) (fields : List FieldRef) : Draft :=
  { d with options := { d.options with discards := some fields } }

def owner (d : Draft) (ty : TypeKey) : Draft :=
  { d with options := { d.options with owner := some ty } }

def reads (d : Draft) (fields : List String) : Draft :=
  { d with options := { d.options with reads := d.options.reads ∪ .ofList fields } }

/-- All options at once; the name stays. -/
def withOptions (d : Draft) (options : DraftOptions) : Draft := { d with options }

def checkSignature (sig : Signature) : Except Malformation Unit :=
  if sig.isEmpty then .error .noParameter
  else match sig.find? (·.kind = .variadicKeyword) with
    | some p => .error (.variadicKeyword p.name)
    | none => match sig.find? (·.kind = .variadicPositional) with
      | some p => .error (.variadicPositional p.name)
      | none => .ok ()

def checkRefs (options : DraftOptions) : Except Malformation Unit :=
  if (options.target.toList ++ options.discards.getD []).any (·.name = "") then
    .error .emptyFieldRef
  else .ok ()

def build (d : Draft) (check : Check ι) : Except Fault (Rule ι) :=
  match checkSignature d.signature, checkRefs d.options with
  | .error cause, _ | .ok (), .error cause => .error (.malformed cause)
  | .ok (), .ok () => .ok {
      name := d.name
      params := .ofList (d.signature.tail.map Parameter.name)
      reads := d.options.reads
      signature := d.signature
      check
      target := d.options.target
      discards := d.options.discards.getD d.options.target.toList
      owner := d.options.owner }

end Draft

end Vetting
