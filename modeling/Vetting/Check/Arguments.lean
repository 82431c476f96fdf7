import Vetting.Check.Refusal

/-!
# Arguments

Arguments are values by name, given to a check beside the object. A check may
require one, and require it to be of a certain kind.
-/

namespace Vetting

abbrev Arguments := NameMap Json

abbrev Taking (α : Type) := Json → Except Mismatch α

namespace Taking

def whole (wanted : String) (low high : Int) : Taking Int
  | .number (.whole n) => if low ≤ n ∧ n ≤ high then .ok n else .error (.range n wanted)
  | j => .error (.kind j wanted)

def int64 : Taking Int := whole "i64" (-Word.half) (Word.half - 1)

def byte : Taking Int := whole "u8" 0 255

def word64 : Taking Int := whole "u64" 0 (Word.count - 1)

def truth : Taking Bool
  | .bool b => .ok b
  | j => .error (.kind j "a boolean")

def text : Taking String
  | .string s => .ok s
  | j => .error (.kind j "a string")

/-- A list of strings; the first item that is none is to blame. -/
def texts : Taking (List String)
  | .array l => l.mapM text
  | j => .error (.kind j "a sequence")

def optional (take : Taking α) : Taking (Option α)
  | .null => .ok none
  | j => (take j).map some

def any : Taking Json := .ok

end Taking

namespace Arguments

def require (args : Arguments) (name : String) : Except Refusal Json :=
  match args.get? name with
  | some j => .ok j
  | none => .error (.trouble (.missingArgument name))

def requireAs (args : Arguments) (name : String) (take : Taking α) : Except Refusal α := do
  let j ← args.require name
  match take j with
  | .ok a => return a
  | .error why => throw (.trouble (.badArgument name why))

def same (a b : Arguments) : Bool := Json.sameEntries a.entries b.entries

def toJson (args : Arguments) : Json := .object args.entries

def read? (s : String) : Option Arguments :=
  match Json.read? s with
  | some (.object entries) => some (.ofList entries)
  | _ => none

end Arguments

end Vetting
