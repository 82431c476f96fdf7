/-!
# Binary floating point

A finite binary number of 64 bits is a sign, a significand below `2 ^ 53` and
an exponent of two. `Binary64.nearest` rounds a quotient of natural numbers to
the nearest such number, a tie going to the even significand, and gives nothing
when the quotient is too large. Everything is exact arithmetic on `Nat`.
-/

namespace Vetting

/-- `significand * 2 ^ exponent`, with its sign; the sign of zero is kept. -/
structure Binary64 where
  negative : Bool
  significand : Nat
  exponent : Int
deriving DecidableEq

def roundHalfEven (n d : Nat) : Nat :=
  let q := n / d
  let r := n % d
  if 2 * r < d ∨ (2 * r = d ∧ q % 2 = 0) then q else q + 1

namespace Binary64

def zero (negative : Bool) : Binary64 := ⟨negative, 0, 0⟩

def isZero (x : Binary64) : Bool := x.significand == 0

def ratio (x : Binary64) : Nat × Nat :=
  (x.significand <<< x.exponent.toNat, 1 <<< (-x.exponent).toNat)

/-- `n / d` in units of `2 ^ e`, rounded. -/
def inUnits (n d : Nat) (e : Int) : Nat := roundHalfEven (n <<< (-e).toNat) (d <<< e.toNat)

/-- The greatest `e` with `2 ^ e ≤ n / d`. -/
def floorLog (n d : Nat) : Int :=
  let e : Int := n.log2 - d.log2
  if d <<< e.toNat ≤ n <<< (-e).toNat then e else e - 1

def nearest (negative : Bool) (n d : Nat) : Option Binary64 :=
  if n = 0 then some (zero negative)
  else
    let e := max (-1074) (floorLog n d - 52)
    let m := inUnits n d e
    let x : Binary64 := if m = 1 <<< 53 then ⟨negative, 1 <<< 52, e + 1⟩ else ⟨negative, m, e⟩
    if m = 0 then some (zero negative)
    else if 971 < x.exponent then none
    else some x

/-- The greatest power of ten that is a number of this kind. -/
def tenLimit : Nat := 308

def powerOfTen (k : Nat) : Nat × Nat := ((nearest false (Nat.pow 10 k) 1).getD (zero false)).ratio

def scaleUp (x : Binary64) (k : Nat) : Option Binary64 :=
  if x.isZero then some x
  else if tenLimit < k then none
  else nearest x.negative (x.ratio.1 * (powerOfTen k).1) (x.ratio.2 * (powerOfTen k).2)

/-- The quotient by the rounded power of ten, rounded; a power beyond the limit is taken off in
steps, each of them rounded. -/
def scaleDown (x : Binary64) (k : Nat) : Binary64 :=
  let quotient (j : Nat) : Binary64 :=
    (nearest x.negative (x.ratio.1 * (powerOfTen j).2) (x.ratio.2 * (powerOfTen j).1)).getD x
  if x.isZero then x
  else if k ≤ tenLimit then quotient k
  else (quotient tenLimit).scaleDown (k - tenLimit)
termination_by k
decreasing_by simp_all [tenLimit]; omega

def same (x y : Binary64) : Bool := x == y || (x.isZero && y.isZero)

end Binary64

end Vetting
