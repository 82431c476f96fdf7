import Vetting.Keys
import Vetting.NameSet

/-!
# Events

What the library tells a log about its own work. An event has a level, a
message and named fields.
-/

namespace Vetting

inductive Event where
  | registering (owner : TypeKey) (rule : String) (dependencies : NameSet)
  | skipping (rule : String) (dependencies : NameSet)
  | running (rule : String)
  | failed (messages : Nat) (keys : List String)
  | standInCycle (ty : TypeKey)

def NameSet.shown (s : NameSet) : Shown := .set (s.toList.map .quoted)

namespace Event

def level : Event → String
  | registering .. | failed .. => "DEBUG"
  | skipping .. | running _ => "TRACE"
  | standInCycle _ => "WARN"

def message : Event → String
  | registering .. => "Registering validator"
  | skipping .. => "Skipping validator depending on discarded fields"
  | running _ => "Running validator"
  | failed .. => "Validation failed"
  | standInCycle _ => "Model alias cycle detected, stopping lookup"

def fields : Event → List (String × Json)
  | registering owner rule dependencies =>
    [("owner", owner.toJson), ("validator", .string rule),
      ("dependencies", .string dependencies.shown.write)]
  | skipping rule dependencies =>
    [("validator", .string rule), ("dependencies", .string dependencies.shown.write)]
  | running rule => [("validator", .string rule)]
  | failed messages keys =>
    [("messages", .ofNat messages), ("children", .string (Shown.strings keys).write)]
  | standInCycle ty => [("type_key", ty.toJson)]

end Event

end Vetting
