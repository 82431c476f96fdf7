import Vetting.Field.Source
import Vetting.Rule.Basic

/-!
# Invocation

A rule runs its check and dresses what comes back: a report is put under the
alias of the target field, and with discards it also says which fields are
lost. Alias and lost fields are looked up where the rule is bound, and are
remembered from the first time that the fields of the owner are known.
-/

namespace Vetting

structure Binding (σ : Type) where
  owner : TypeKey
  dependencies : NameSet
  shapes : ShapeSource σ

structure Memo where
  label : Option String
  discards : Option NameSet

instance : EmptyCollection Memo := ⟨⟨none, none⟩⟩

inductive Outcome where
  | passed
  | failed (report : Report)
  /-- Failed, and the fields are lost to the rules that depend on them. -/
  | discarding (fields : NameSet) (report : Report)
  | deferred (deferral : Deferral)

namespace Rule

variable {σ ι : Type}

def targetLabel (r : Rule ι) (binding : Option (Binding σ)) (target : FieldRef) (memo : Memo)
    (s : σ) : Except Fault String × Memo × σ :=
  match memo.label with
  | some label => (.ok label, memo, s)
  | none => match binding with
    | none => (.error (.conflict (.unbound r.name)), memo, s)
    | some b => match b.shapes.ask b.owner .reading s with
      | (.error fault, s) => (.error fault, memo, s)
      | (.ok shape, s) => match shape.resolve? target.name with
        | none => (.error (.unknownField b.owner target.name), memo, s)
        | some f => (.ok f.label, { memo with label := some f.label }, s)

/-- The identifiers of the lost fields; as they were declared while the fields are not known. -/
def lostFields (r : Rule ι) (binding : Option (Binding σ)) (memo : Memo) (s : σ) :
    NameSet × Memo × σ :=
  match memo.discards with
  | some names => (names, memo, s)
  | none =>
    let declared := r.discards.map FieldRef.name
    match binding with
    | none => (.ofList declared, memo, s)
    | some b => match b.shapes.ask b.owner .reading s with
      | (.error _, s) => (.ofList declared, memo, s)
      | (.ok shape, s) =>
        let names := NameSet.ofList (declared.map shape.identify)
        (names, { memo with discards := some names }, s)

def discarding (r : Rule ι) (binding : Option (Binding σ)) (report : Report) (memo : Memo) (s : σ) :
    Outcome × Memo × σ :=
  if r.discards.isEmpty then (.failed report, memo, s)
  else
    let (fields, memo, s) := r.lostFields binding memo s
    (.discarding fields report, memo, s)

/-- The outcome of a report by the check. If the target is not found, that is reported too and
nothing is lost. -/
def placing (r : Rule ι) (binding : Option (Binding σ)) (report : Report) (memo : Memo) (s : σ) :
    Outcome × Memo × σ :=
  match r.target with
  | none => r.discarding binding report memo s
  | some target => match r.targetLabel binding target memo s with
    | (.error fault, memo, s) => (.failed ((Report.message fault.message).merge report), memo, s)
    | (.ok label, memo, s) => r.discarding binding (report.under label) memo s

/-- Runs the check. Only a breach is a fault. -/
def invoke (r : Rule ι) (binding : Option (Binding σ)) (x : ι) (args : Arguments) (memo : Memo)
    (s : σ) : Except Fault Outcome × Memo × σ :=
  match r.check.call x args with
  | .ok () => (.ok .passed, memo, s)
  | .error (.deferred d) => (.ok (.deferred d), memo, s)
  | .error (.breach text) => (.error (.breach (.other text)), memo, s)
  | .error (.trouble cause) => (.ok (.failed (.message cause.message)), memo, s)
  | .error (.invalid report) =>
    let (outcome, memo, s) := r.placing binding report memo s
    (.ok outcome, memo, s)

end Rule

end Vetting
