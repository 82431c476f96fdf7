import Vetting.Event
import Vetting.Rule.Invocation

/-!
# Validation

A line of rules is run in order and every report is gathered into one. A rule
that discards fields adds them to the lost fields, and a later rule that
depends on a lost field is skipped. The first rule that lacks an argument, is
breached or defers ends the run with its fault.
-/

namespace Vetting

abbrev Bindings (σ : Type) := Table RuleId (Binding σ)

abbrev Memos := Table RuleId Memo

def Memos.of (memos : Memos) (id : RuleId) : Memo := (memos.get? id).getD ∅

/-- A rule depends on nothing until it is bound. -/
def Bindings.dependencies {σ : Type} (bindings : Bindings σ) (id : RuleId) : NameSet :=
  ((bindings.get? id).map Binding.dependencies).getD ∅

structure Call where
  rule : RuleId
  arguments : Arguments

structure Run (σ : Type) where
  result : Except Fault Unit
  events : List Event
  calls : List Call
  memos : Memos
  state : σ

def Run.after (run : Run σ) (events : List Event) (calls : List Call) : Run σ :=
  { run with events := events ++ run.events, calls := calls ++ run.calls }

/-- The arguments that a rule is given: all of them when there are none or when they are just its
parameters, else those of its parameters, none of which may be missing. -/
def RuleInfo.select (r : RuleInfo) (args : Arguments) : Except Fault Arguments :=
  if args.isEmpty || args.hasExactly r.params then .ok args
  else match r.params.toList.find? (!args.contains ·) with
    | some missing => .error (.breach (.missingArgument r.name missing))
    | none => .ok (args.restrict r.params)

/-- What one rule adds to a run: a report, if it has one, and fields that are lost. -/
structure Attempt (σ : Type) where
  verdict : Except Fault (Option Report × NameSet)
  calls : List Call
  memos : Memos
  state : σ

def Outcome.verdict (rule : String) : Outcome → Except Fault (Option Report × NameSet)
  | passed => .ok (none, ∅)
  | failed report => .ok (some report, ∅)
  | discarding fields report => .ok (some report, fields)
  | deferred d => .error (.deferred { d with rule := some rule })

def gatherWith (gathered : Option Report) : Option Report → Option Report
  | none => gathered
  | some report => some (.gather gathered report)

section
variable {σ ι : Type}

def attempt (bindings : Bindings σ) (x : ι) (args : Arguments) (p : Posting ι) (memos : Memos)
    (s : σ) : Attempt σ :=
  match p.rule.select args with
  | .error fault => ⟨.error fault, [], memos, s⟩
  | .ok given =>
    let (outcome, memo, s) := p.rule.invoke (bindings.get? p.id) x given (memos.of p.id) s
    ⟨outcome.bind (·.verdict p.rule.name), [⟨p.id, given⟩], memos.set p.id memo, s⟩

/-- The end of a run. A report with nothing at its root is no failure. -/
def conclude (gathered : Option Report) (memos : Memos) (s : σ) : Run σ :=
  match gathered with
  | none => ⟨.ok (), [], [], memos, s⟩
  | some report =>
    if report.isEmpty then ⟨.ok (), [], [], memos, s⟩
    else ⟨.error (.invalid report), [.failed report.messages.length report.keys], [], memos, s⟩

/-- Runs the rest of a line, given what was gathered and which fields were lost before. -/
def validateFrom (bindings : Bindings σ) (x : ι) (args : Arguments) :
    List (Posting ι) → Option Report → NameSet → Memos → σ → Run σ
  | [], gathered, _, memos, s => conclude gathered memos s
  | p :: line, gathered, lost, memos, s =>
    let dependencies := bindings.dependencies p.id
    if !lost.isEmpty && dependencies.meets lost then
      (validateFrom bindings x args line gathered lost memos s).after
        [.skipping p.rule.name dependencies] []
    else
      let a := attempt bindings x args p memos s
      match a.verdict with
      | .error fault => ⟨.error fault, [.running p.rule.name], a.calls, a.memos, a.state⟩
      | .ok (report, fields) =>
        (validateFrom bindings x args line (gatherWith gathered report) (lost ∪ fields)
          a.memos a.state).after [.running p.rule.name] a.calls

def validate (bindings : Bindings σ) (x : ι) (args : Option Arguments) (line : List (Posting ι))
    (memos : Memos) (s : σ) : Run σ :=
  validateFrom bindings x (args.getD ∅) line none ∅ memos s

end

end Vetting
