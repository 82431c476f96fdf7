import Vetting.Keys

/-!
# Signatures

A check declares its parameters. The first stands for the object; the type
noted at it can tell where the rule belongs.
-/

namespace Vetting

inductive ParameterKind where
  | positional
  | keyword
  | variadicPositional
  | variadicKeyword
deriving DecidableEq

structure Parameter where
  name : String
  kind : ParameterKind
  type : Option TypeKey
deriving DecidableEq

abbrev Signature := List Parameter

namespace Signature

def method : Signature := [⟨"self", .positional, none⟩]

def function (ty : TypeKey) : Signature := [⟨"obj", .positional, some ty⟩]

/-- The parameter that stands for the object. -/
def receiver? (sig : Signature) : Option Parameter := sig.head?

end Signature

end Vetting
