import Vetting.Json.Shortest

/-!
# Numbers

A number is whole when it is written without fraction and exponent and fits 64
bits, signed or unsigned; any other is binary floating point. Its significand
keeps the leading digits that fit 64 bits and is then scaled by a power of ten.
-/

namespace Vetting

def Word.count : Nat := 0x10000000000000000

def Word.half : Nat := 0x8000000000000000

def Word.fits (n : Int) : Bool := -(Word.half : Int) ≤ n && n < Word.half

inductive Number where
  | whole (n : Int)
  | real (x : Binary64)
deriving DecidableEq

namespace Number

def write : Number → List Char
  | whole n => (toString n).toList
  | real x => x.write

def same : Number → Number → Bool
  | whole n, whole m => n == m
  | real x, real y => x.same y
  | _, _ => false

end Number

structure Numeral where
  negative : Bool
  whole : List Nat
  fraction : Option (List Nat)
  exponent : Option (Bool × List Nat)

namespace Numeral

def ofDigits (ds : List Nat) : Nat := ds.foldl (fun n d => n * 10 + d) 0

/-- `n` followed by the leading digits that keep it within 64 bits, and the digits left over. -/
def leading (n : Nat) : List Nat → Nat × List Nat
  | [] => (n, [])
  | d :: ds => if n * 10 + d < Word.count then leading (n * 10 + d) ds else (n, d :: ds)

def scaled (x : Numeral) : Nat × Int :=
  let (n, surplus) := leading 0 x.whole
  let fraction := x.fraction.getD []
  let (m, unused) := leading n fraction
  let taken : Int := fraction.length - unused.length
  let shift : Int := match x.exponent with
    | none => 0
    | some (negative, ds) => if negative then -(ofDigits ds : Int) else ofDigits ds
  (m, surplus.length - taken + shift)

def real? (x : Numeral) : Option Binary64 := do
  let (m, e) := x.scaled
  let significand ← Binary64.nearest x.negative m 1
  if 0 ≤ e then significand.scaleUp e.toNat else pure (significand.scaleDown (-e).toNat)

/-- The number written, unless it is out of range. A negative zero is floating point. -/
def value? (x : Numeral) : Option Number :=
  let n := ofDigits x.whole
  if x.fraction.isNone && x.exponent.isNone && x.negative && 0 < n && n ≤ Word.half then
    some (.whole (-(n : Int)))
  else if x.fraction.isNone && x.exponent.isNone && !x.negative && n < Word.count then
    some (.whole n)
  else x.real?.map .real

def digits : List Char → List Nat × List Char
  | [] => ([], [])
  | c :: s =>
    if c.isDigit then
      let (ds, rest) := digits s
      ((c.toNat - 48) :: ds, rest)
    else ([], c :: s)

def whole? (s : List Char) : Option (List Nat × List Char) :=
  match digits s with
  | ([], _) => none
  | (0 :: _ :: _, _) => none
  | found => some found

def fraction? : List Char → Option (Option (List Nat) × List Char)
  | '.' :: s => match digits s with
    | ([], _) => none
    | (ds, rest) => some (some ds, rest)
  | s => some (none, s)

def minus : List Char → Bool × List Char
  | '-' :: s => (true, s)
  | s => (false, s)

def sign : List Char → Bool × List Char
  | '+' :: s => (false, s)
  | s => minus s

def exponent? : List Char → Option (Option (Bool × List Nat) × List Char)
  | [] => some (none, [])
  | c :: s =>
    if c = 'e' ∨ c = 'E' then
      match digits (sign s).2 with
      | ([], _) => none
      | (ds, rest) => some (some ((sign s).1, ds), rest)
    else some (none, c :: s)

def read? (s : List Char) : Option (Numeral × List Char) := do
  let (negative, s) := minus s
  let (whole, s) ← whole? s
  let (fraction, s) ← fraction? s
  let (exponent, s) ← exponent? s
  pure (⟨negative, whole, fraction, exponent⟩, s)

theorem length_digits (s : List Char) :
    (digits s).2.length + (digits s).1.length = s.length := by
  fun_induction digits s with
  | case1 => rfl
  | case2 c s _ ds rest h ih => simp only [h, List.length_cons] at ih ⊢; omega
  | case3 => simp

theorem length_of_digits {s rest : List Char} {ds : List Nat} (h : digits s = (ds, rest)) :
    rest.length + ds.length = s.length := by
  have := length_digits s
  rwa [h] at this

theorem length_of_whole? {s rest : List Char} {ds : List Nat} (h : whole? s = some (ds, rest)) :
    rest.length < s.length := by
  rw [whole?] at h
  split at h
  · cases h
  · cases h
  · rename_i found hne _
    simp only [Option.some.injEq] at h
    have := length_of_digits h
    cases ds with
    | nil => exact absurd h (hne rest)
    | cons d ds => simp only [List.length_cons] at this; omega

theorem length_of_fraction? {s rest : List Char} {f : Option (List Nat)}
    (h : fraction? s = some (f, rest)) : rest.length ≤ s.length := by
  rw [fraction?.eq_def] at h
  split at h
  · split at h
    · cases h
    · rename_i ds rest' _ hd
      have := length_of_digits hd
      simp only [Option.some.injEq, Prod.mk.injEq] at h
      simp only [List.length_cons, ← h.2]
      omega
  · simp only [Option.some.injEq, Prod.mk.injEq] at h
    simp [h.2]

theorem length_minus (s : List Char) : (minus s).2.length ≤ s.length := by
  unfold minus
  split <;> simp

theorem length_sign (s : List Char) : (sign s).2.length ≤ s.length := by
  unfold sign
  split
  · simp
  · exact length_minus _

theorem length_of_exponent? {s rest : List Char} {e : Option (Bool × List Nat)}
    (h : exponent? s = some (e, rest)) : rest.length ≤ s.length := by
  rw [exponent?.eq_def] at h
  split at h
  · simp_all
  · rename_i c s
    split at h
    · split at h
      · cases h
      · rename_i ds rest' _ hd
        have := length_of_digits hd
        have := length_sign s
        simp only [Option.some.injEq, Prod.mk.injEq] at h
        simp only [List.length_cons, ← h.2]
        omega
    · simp_all

theorem length_of_read? {s rest : List Char} {x : Numeral} (h : read? s = some (x, rest)) :
    rest.length < s.length := by
  simp only [read?, Option.bind_eq_bind, Option.bind_eq_some_iff, Option.pure_def] at h
  obtain ⟨⟨w, s₁⟩, hw, ⟨f, s₂⟩, hf, ⟨e, s₃⟩, he, h⟩ := h
  dsimp only at hf he
  have := length_minus s
  have := length_of_whole? hw
  have := length_of_fraction? hf
  have := length_of_exponent? he
  simp only [Option.some.injEq, Prod.mk.injEq] at h
  rw [← h.2]
  omega

end Numeral

end Vetting
