import Vetting.Json.Binary64

/-!
# Shortest decimals

The decimal of a binary number is the one with the fewest digits that rounds
back to it, and among those the nearest. The numbers that round back form an
interval whose ends belong to it when the significand is even; on the grid of
decimals of a given length only the two neighbours of the number need a test.
-/

namespace Vetting

structure Decimal where
  digits : Nat
  exponent : Int
deriving DecidableEq

namespace Decimal

def trim (x : Decimal) : Decimal :=
  if h : x.digits ≠ 0 ∧ x.digits % 10 = 0 then trim ⟨x.digits / 10, x.exponent + 1⟩ else x
termination_by x.digits
decreasing_by omega

def ratio (x : Decimal) : Nat × Nat :=
  (x.digits * Nat.pow 10 x.exponent.toNat, Nat.pow 10 (-x.exponent).toNat)

end Decimal

namespace Binary64

/-- `4 * significand` on the grid two bits finer, with the ends of the interval that rounds to it. -/
def interval (x : Binary64) : Nat × Nat × Nat :=
  let m := 4 * x.significand
  let below := if x.significand = 1 <<< 52 ∧ -1074 < x.exponent then 1 else 2
  (m - below, m, m + 2)

def takes (x : Binary64) (y : Decimal) : Bool :=
  let (low, _, high) := x.interval
  let e := x.exponent - 2
  let (n, d) := y.ratio
  let value := n <<< (-e).toNat
  let unit := d <<< e.toNat
  if x.significand % 2 = 0 then low * unit ≤ value && value ≤ high * unit
  else low * unit < value && value < high * unit

def floorLogTen (x : Binary64) : Int :=
  let (n, d) := x.ratio
  let e : Int := (Nat.toDigits 10 n).length - (Nat.toDigits 10 d).length
  if d * Nat.pow 10 e.toNat ≤ n * Nat.pow 10 (-e).toNat then e else e - 1

def decimalOfLength (x : Binary64) (n : Nat) : Option Decimal :=
  let e := x.floorLogTen - n + 1
  let (a, b) := x.ratio
  let num := a * Nat.pow 10 (-e).toNat
  let den := b * Nat.pow 10 e.toNat
  let low : Decimal := ⟨num / den, e⟩
  let high : Decimal := ⟨num / den + 1, e⟩
  let nearer : Decimal := ⟨roundHalfEven num den, e⟩
  if x.takes low && x.takes high then some nearer
  else if x.takes low then some low
  else if x.takes high then some high
  else none

/-- Seventeen digits always suffice. -/
def shortest (x : Binary64) : Decimal :=
  if x.isZero then ⟨0, 0⟩
  else (((List.range 17).findSome? fun n => x.decimalOfLength (n + 1)).getD ⟨0, 0⟩).trim

end Binary64

namespace Decimal

/-- The place of the point is counted in digits from the first one. Numbers that are neither very
small nor very large are written out. -/
def isPositional (point : Int) : Bool := -5 < point && point ≤ 16

def writeExponent (e : Int) : List Char :=
  'e' :: (if e < 0 then '-' else '+') :: Nat.toDigits 10 e.natAbs

def write (x : Decimal) : List Char :=
  let digits := Nat.toDigits 10 x.digits
  let point : Int := digits.length + x.exponent
  if x.digits = 0 then ['0', '.', '0']
  else if isPositional point then
    if 0 ≤ x.exponent then digits ++ List.replicate x.exponent.toNat '0' ++ ['.', '0']
    else if 0 < point then digits.take point.toNat ++ '.' :: digits.drop point.toNat
    else '0' :: '.' :: List.replicate (-point).toNat '0' ++ digits
  else
    let fraction := if digits.tail = [] then [] else '.' :: digits.tail
    digits.take 1 ++ fraction ++ writeExponent (point - 1)

end Decimal

def Binary64.write (x : Binary64) : List Char :=
  (if x.negative then ['-'] else []) ++ x.shortest.write

end Vetting
