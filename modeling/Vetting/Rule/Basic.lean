import Vetting.Check.Basic
import Vetting.NameSet
import Vetting.Rule.Signature

/-!
# Rules

A rule is a check with what was declared about it: the parameters it takes, the
fields it reads, the field its failures are reported under, and the fields that
count as lost when it fails. A posted rule has an identity, which it keeps
wherever it is listed.
-/

namespace Vetting

structure RuleInfo where
  name : String
  /-- The names of the parameters after the first. -/
  params : NameSet
  reads : NameSet
deriving DecidableEq

structure Rule (ι : Type) extends RuleInfo where
  signature : Signature
  check : Check ι
  target : Option FieldRef
  /-- The fields that are lost when the check fails. -/
  discards : List FieldRef
  owner : Option TypeKey

abbrev RuleId := Nat

structure Posting (ι : Type) where
  id : RuleId
  rule : Rule ι

/-- The owner from the declaration, or else from the type of the object. -/
def Rule.declaredOwner? (r : Rule ι) : Option TypeKey :=
  r.owner.or (r.signature.receiver?.bind Parameter.type)

end Vetting
