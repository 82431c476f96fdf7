/-!
# Findings

A finding is a message and the path of keys that it is about. What a check
reports one by one is either a message about the whole object or a finding.
-/

namespace Vetting

structure Finding where
  path : List String
  text : String
deriving DecidableEq

def Finding.line (f : Finding) : String :=
  if f.path.isEmpty then f.text else ".".intercalate f.path ++ ": " ++ f.text

inductive Yielded where
  | message (text : String)
  | located (path : List String) (text : String)
deriving DecidableEq

def Yielded.finding : Yielded → Finding
  | message text => ⟨[], text⟩
  | located path text => ⟨path, text⟩

end Vetting
