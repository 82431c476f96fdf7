import Vetting.Check.Refusal

/-!
# Whole numbers in text

A whole number of 64 bits is written as digits with a sign in front or without
one. It is read from the left and the first problem is the one reported: a
character that is no digit, or a digit that leaves the range.
-/

namespace Vetting

namespace Integer

def digit? (c : Char) : Option Nat := if c.isDigit then some (c.toNat - 48) else none

def magnitude (limit : Nat) (beyond : Misnumber) : Nat → List Char → Except Misnumber Nat
  | n, [] => .ok n
  | n, c :: s => match digit? c with
    | none => .error .digit
    | some d =>
      if n * 10 + d ≤ limit then magnitude limit beyond (n * 10 + d) s else .error beyond

def read : List Char → Except Misnumber Int
  | [] => .error .empty
  | ['+'] | ['-'] => .error .digit
  | '-' :: s => (magnitude Word.half .tooSmall 0 s).map fun n => -(n : Int)
  | '+' :: s => (magnitude (Word.half - 1) .tooLarge 0 s).map Int.ofNat
  | s => (magnitude (Word.half - 1) .tooLarge 0 s).map Int.ofNat

end Integer

end Vetting
