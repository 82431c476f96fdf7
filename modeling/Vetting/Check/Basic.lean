import Vetting.Check.Arguments

/-!
# Checks

A check looks at an object and at arguments. It either returns, with a refusal
or without one, or it yields the problems it finds one by one; problems that
were yielded are collected into one report.
-/

namespace Vetting

inductive Check (ι : Type) where
  | returning (run : ι → Arguments → Except Refusal Unit)
  | yielding (run : ι → Arguments → List Yielded)

namespace Check

variable {ι : Type}

def isYielding : Check ι → Bool
  | returning _ => false
  | yielding _ => true

def collect : List Yielded → Except Refusal Unit
  | [] => .ok ()
  | ys => .error (.invalid (.ofYielded ys))

def call : Check ι → ι → Arguments → Except Refusal Unit
  | returning run, x, args => run x args
  | yielding run, x, args => collect (run x args)

end Check

end Vetting
