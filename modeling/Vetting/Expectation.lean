import Vetting.Fault

/-!
# Expectations

What a test expects of a report or of the result of a validation. An
expectation that is not met gives the text to fail with.
-/

namespace Vetting

namespace Report

def expectMessages (r : Report) (expected : List String) : Except String Unit :=
  if r.messages = expected then .ok ()
  else .error ("Expected messages " ++ (Shown.strings expected).write ++
    ", got " ++ (Shown.strings r.messages).write)

def expectBranchMessages (r : Report) (key : String) (expected : List String) :
    Except String Unit :=
  match r.branch? key with
  | some s => s.expectMessages expected
  | none => .error ("Expected child '" ++ key ++ "', found keys " ++
      (Shown.strings r.keys).write)

def expectNoBranch (r : Report) (key : String) : Except String Unit :=
  match r.branch? key with
  | none => .ok ()
  | some s => .error ("Expected no child '" ++ key ++ "', but found " ++
      (Shown.option (some s.shown)).write)

end Report

/-- The result is a fault about the data; its report is the answer. -/
def expectInvalid : Except Fault Unit → Except String Report
  | .error (.invalid report) => .ok report
  | .error fault =>
    .error ("Expected validation failure, got " ++ (Shown.wrapped "Err" fault.shown).write)
  | .ok () =>
    .error ("Expected validation failure, got " ++ (Shown.wrapped "Ok" (.word "()")).write)

end Vetting
