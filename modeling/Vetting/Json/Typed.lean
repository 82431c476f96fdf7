import Vetting.Json.Reader

/-!
# Parts of a record in JSON

A record is written as an object, or as an array of its parts in order. In an
object unknown keys are skipped and a part may not be given twice. `depth` is
the number of containers that may still be opened; what is skipped costs none.
-/

namespace Vetting.Json

def asString? : Json → Option String
  | .string s => some s
  | _ => none

def asBool? : Json → Option Bool
  | .bool b => some b
  | _ => none

def items? (depth : Nat) : Json → Option (List Json)
  | .array l => if depth = 0 then none else some l
  | _ => none

def asStrings? (depth : Nat) (j : Json) : Option (List String) := (items? depth j).bind (·.mapM asString?)

def partsOfEntries? (names : List String) (entries : List (String × Json)) :
    Option (List (Option Json)) :=
  names.mapM fun name => match entries.filter (·.1 = name) with
    | [] => some none
    | [e] => some (some e.2)
    | _ => none

/-- The parts named `names`, from an object or an array. -/
def parts? (depth : Nat) (names : List String) : Json → Option (List (Option Json))
  | .object entries => if depth = 0 then none else partsOfEntries? names entries
  | .array l =>
    if depth = 0 || names.length < l.length then none
    else some (l.map some ++ List.replicate (names.length - l.length) none)
  | _ => none

end Vetting.Json
