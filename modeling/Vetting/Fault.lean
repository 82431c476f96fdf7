import Vetting.Keys
import Vetting.Report.Json

/-!
# Faults

A fault is whatever an operation can end with instead of an answer. Only
`invalid` is about the data; the others are about declarations that do not fit
together, about checks that cannot be run yet, and about checks that assert.
Each carries its cause; the wording is in `message` alone. A call that changes
what it is made on and ends in a fault tells what it leaves.
-/

namespace Vetting

inductive Malformation where
  | noParameter
  | variadicKeyword (parameter : String)
  | variadicPositional (parameter : String)
  | emptyFieldRef
  | other (text : String)

def Malformation.message : Malformation → String
  | noParameter => "Validator must have at least one parameter"
  | variadicKeyword p => "Validator cannot have variadic keyword parameter '" ++ p ++ "'"
  | variadicPositional p => "Validator cannot have variadic positional parameter '" ++ p ++ "'"
  | emptyFieldRef => "Invalid field reference ''"
  | other text => text

inductive Conflict where
  | selfParent (ty : TypeKey)
  | declaredTwice (ty : TypeKey)
  | noLinearization (ty : TypeKey)
  | selfStandIn (ty : TypeKey)
  | duplicateField (name : String)
  | untypedReceiver (rule : String)
  | ownerInBatch (rule : String)
  | unbound (rule : String)
  | other (text : String)

def Conflict.message : Conflict → String
  | selfParent ty => "Type '" ++ ty.name ++ "' cannot inherit from itself"
  | declaredTwice ty => "Type '" ++ ty.name ++ "' is already declared"
  | noLinearization ty =>
    "Cannot create a consistent method resolution order for '" ++ ty.name ++ "'"
  | selfStandIn ty => "Type '" ++ ty.name ++ "' cannot be a model alias of itself"
  | duplicateField name => "Duplicate field '" ++ name ++ "'"
  | untypedReceiver rule => "Validator '" ++ rule ++ "' first parameter must be typed"
  | ownerInBatch rule => "Validator owner cannot be set for class validator '" ++ rule ++ "'"
  | unbound rule => "Validator '" ++ rule ++ "' is not registered"
  | other text => text

inductive Breach where
  | missingArgument (rule argument : String)
  | other (text : String)

def Breach.message : Breach → String
  | missingArgument rule argument =>
    "Validator '" ++ rule ++ "' expects argument '" ++ argument ++ "' which was not provided"
  | other text => text

structure Deferral where
  needed : String
  rule : Option String
deriving DecidableEq

def Deferral.message (d : Deferral) : String := "Non-trivial dependency on '" ++ d.needed ++ "'"

def Deferral.shown (d : Deferral) : Shown :=
  .parts "NonTrivialDependency"
    [("attribute", .quoted d.needed), ("validator", .option (d.rule.map .quoted))]

inductive Fault where
  | invalid (report : Report)
  | deferred (deferral : Deferral)
  | malformed (cause : Malformation)
  | alreadyBound (rule : String) (owner : TypeKey)
  | conflict (cause : Conflict)
  | unknownType (ty : TypeKey)
  | unknownField (ty : TypeKey) (field : String)
  | breach (cause : Breach)

namespace Fault

def kind : Fault → String
  | invalid _ => "ValidationError"
  | deferred _ => "NonTrivialDependency"
  | malformed _ => "ConstructionError"
  | alreadyBound .. => "AlreadyRegistered"
  | conflict _ => "ConfigurationError"
  | unknownType _ => "UnknownType"
  | unknownField .. => "UnknownField"
  | breach _ => "AssertionError"

def message : Fault → String
  | invalid report => report.text
  | deferred d => d.message
  | malformed cause => "Invalid validator: " ++ cause.message
  | alreadyBound rule owner =>
    "Validator '" ++ rule ++ "' already registered for '" ++ owner.name ++ "'"
  | conflict cause => "Configuration error: " ++ cause.message
  | unknownType ty => "Type '" ++ ty.name ++ "' doesn't have fields"
  | unknownField ty field => "Type '" ++ ty.name ++ "' has no field '" ++ field ++ "'"
  | breach cause => "Assertion failed: " ++ cause.message

def details : Fault → List (String × Json)
  | invalid report => [("errors", .array (report.findings.map Finding.toJson))]
  | deferred d =>
    [("attribute", .string d.needed), ("validator", (d.rule.map .string).getD .null)]
  | alreadyBound rule owner => [("validator", .string rule), ("owner", owner.toJson)]
  | unknownType ty => [("type_key", ty.toJson)]
  | unknownField ty field => [("type_key", ty.toJson), ("field", .string field)]
  | malformed _ | conflict _ | breach _ => []

def isInvalid : Fault → Bool
  | invalid _ => true
  | _ => false

def report? : Fault → Option Report
  | invalid report => some report
  | _ => none

def shown : Fault → Shown
  | invalid report => .wrapped "Validation" report.shown
  | deferred d => .wrapped "NonTrivialDependency" d.shown
  | malformed cause => .wrapped "Construction" (.quoted cause.message)
  | alreadyBound rule owner =>
    .parts "AlreadyRegistered" [("validator", .quoted rule), ("owner", owner.shown)]
  | conflict cause => .wrapped "Configuration" (.quoted cause.message)
  | unknownType ty => .wrapped "UnknownType" ty.shown
  | unknownField ty field => .parts "UnknownField" [("ty", ty.shown), ("field", .quoted field)]
  | breach cause => .wrapped "Assertion" (.quoted cause.message)

end Fault

/-- The end of a call in a fault, and what the call leaves of that on which it was made. -/
structure Rejection (σ : Type) where
  fault : Fault
  state : σ

instance {σ : Type} : CoeOut (Rejection σ) Fault := ⟨Rejection.fault⟩

/-- What a call leaves, whichever way it ends. -/
def stateAfter {σ α : Type} (f : α → σ) : Except (Rejection σ) α → σ
  | .ok a => f a
  | .error r => r.state

end Vetting
