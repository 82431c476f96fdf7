import Vetting.Check.Basic
import Vetting.Check.Integer
import Vetting.Record

/-!
# Stock checks

Checks of records that can be written down as data. `Stock.check` is the check
that a datum stands for.
-/

namespace Vetting

inductive Wanted where
  | int64
  | byte
  | word64
  | truth
  | text
  | texts
  | optionalInt64
  | any

def Wanted.take : Wanted → Taking Json
  | int64, j => (Taking.int64 j).map .ofInt
  | byte, j => (Taking.byte j).map .ofInt
  | word64, j => (Taking.word64 j).map .ofInt
  | truth, j => (Taking.truth j).map .bool
  | text, j => (Taking.text j).map .string
  | texts, j => (Taking.texts j).map .strings
  | optionalInt64, j => (Taking.optional .int64 j).map fun n => (n.map .ofInt).getD .null
  | any, j => .ok j

inductive Stock where
  | pass
  | refuse (refusal : Refusal)
  | require (arg : String)
  | requireAs (arg : String) (wanted : Wanted) (quiet : Bool)
  | showArguments
  | showType
  | has (fields : List String)
  | atLeast (field : String) (bound : Int)
  /-- The field is at most the argument; a field that is no number counts as zero. -/
  | atMostArgument (field arg : String)
  | integer (field : String)
  | all (checks : List Stock)
  | yields (problems : List Yielded)
  | yieldMissing (fields : List String)
  | yieldArguments

namespace Stock

instance : Inhabited Stock := ⟨pass⟩

def showArgument (e : String × Json) : String := e.1 ++ "=" ++ e.2.text

def missing (r : Record) (fields : List String) : List String := fields.filter (!r.has ·)

def problems? : Stock → Record → Arguments → Option (List Yielded)
  | yields ys, _, _ => some ys
  | yieldMissing fields, r, _ => some ((missing r fields).map fun f => .located [f] "missing")
  | yieldArguments, _, args => some (args.keys.toList.map .message)
  | _, _, _ => none

mutual

def run : Stock → Record → Arguments → Except Refusal Unit
  | pass, _, _ => .ok ()
  | refuse refusal, _, _ => .error refusal
  | require arg, _, args => discard (args.require arg)
  | requireAs arg wanted quiet, _, args => do
    let j ← args.requireAs arg wanted.take
    if quiet then return
    throw (.because (showArgument (arg, j)))
  | showArguments, _, args => .error (.invalid (.ofMessages (args.entries.map showArgument)))
  | showType, r, _ => .error (.because r.type.name)
  | has fields, r, _ => match missing r fields with
    | [] => .ok ()
    | fs => .error (.invalid (.ofMessages (fs.map (· ++ " required"))))
  | atLeast field bound, r, _ => match r.int? field with
    | none => .error (.because "not an integer")
    | some n =>
      if bound ≤ n then .ok ()
      else .error (.because (toString n ++ " below " ++ toString bound))
  | atMostArgument field arg, r, args => do
    let limit ← args.requireAs arg .int64
    if limit < (r.int? field).getD 0 then
      throw (.because (field ++ " above " ++ toString limit))
  | integer field, r, _ => match Integer.read ((r.text? field).getD "").toList with
    | .ok _ => .ok ()
    | .error why => .error (.trouble (.badNumber why))
  | all checks, r, args => runAll checks r args
  | check, r, args => Check.collect ((check.problems? r args).getD [])

def runAll : List Stock → Record → Arguments → Except Refusal Unit
  | [], _, _ => .ok ()
  | c :: cs, r, args => do
    c.run r args
    runAll cs r args

end

def check (c : Stock) : Check Record :=
  match c with
  | yields _ | yieldMissing _ | yieldArguments =>
    .yielding fun r args => (c.problems? r args).getD []
  | c => .returning c.run

end Stock

end Vetting
