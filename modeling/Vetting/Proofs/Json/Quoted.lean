import Mathlib.Tactic.SplitIfs
import Vetting.Json.Quoted

/-!
# Quoted strings read back

What `encode` writes for a string, and a quote after it, is read as pieces that
join to the string. A character comes back as itself, or, where it has no letter
to be escaped by, as the unit that its digits give; only characters below the
blank do, so no unit is a surrogate.
-/

namespace Vetting.Quoted

/-- The piece stands for this character alone, whatever comes after it. -/
def Stands (p : Piece) (c : Char) : Prop := p = .char c ∨ p = .unit c.toNat ∧ c.toNat < 0xD800

theorem join?_cons {p : Piece} {c : Char} (h : Stands p c) (ps : List Piece) :
    join? (p :: ps) = (join? ps).map (c :: ·) := by
  rcases h with rfl | ⟨rfl, hc⟩
  · exact join?.eq_2 c ps
  · have hlead : isLead c.toNat = false := by simp [isLead]; omega
    have htrail : isTrail c.toNat = false := by simp [isTrail]; omega
    cases ps with
    | nil => simp [join?, hlead, htrail, Char.ofNat_toNat]
    | cons q ps => cases q <;> simp [join?, hlead, htrail, Char.ofNat_toNat]

/-! ## One character -/

theorem hexValue_hexDigit : ∀ n < 16, hexValue (hexDigit n) = some n := by decide

theorem unit?_hexDigit {n : Nat} (h : n < 256) :
    unit? '0' '0' (hexDigit (n / 16)) (hexDigit (n % 16)) = some n := by
  have hzero : hexValue '0' = some 0 := by decide
  have hhigh := hexValue_hexDigit (n / 16) (by omega)
  have hlow := hexValue_hexDigit (n % 16) (by omega)
  simp only [unit?, hzero, hhigh, hlow, Option.bind_eq_bind, Option.bind_some, Option.pure_def,
    Option.some.injEq]
  omega

theorem pieces?_control {c : Char} (h : c.toNat < 32) (rest : List Char) :
    pieces? (encodeControl c ++ rest) =
      (pieces? rest).map fun q => (.unit c.toNat :: q.1, q.2) := by
  have hunit := unit?_hexDigit (n := c.toNat) (by omega)
  simp only [encodeControl, List.cons_append, List.nil_append, pieces?, hunit]
  cases pieces? rest <;> rfl

theorem pieces?_escape {c e : Char} (hu : e ≠ 'u') (he : escaped? e = some c) (rest : List Char) :
    pieces? ('\\' :: e :: rest) = (pieces? rest).map fun q => (.char c :: q.1, q.2) := by
  rw [pieces?]
  · simp only [he]
    cases pieces? rest <;> rfl
  · rintro a b c d rest rfl
    exact absurd rfl hu

theorem pieces?_plain {c : Char} (hblank : ' ' ≤ c) (hquote : c ≠ '"') (hslash : c ≠ '\\')
    (rest : List Char) :
    pieces? (c :: rest) = (pieces? rest).map fun q => (.char c :: q.1, q.2) := by
  rw [pieces?]
  · rw [if_pos ⟨hblank, hslash⟩]
    cases pieces? rest <;> rfl
  · exact hquote
  · rintro _ _ _ _ _ rfl
    exact absurd rfl hslash
  · rintro _ _ rfl
    exact absurd rfl hslash

theorem exists_piece (c : Char) : ∃ p, Stands p c ∧ ∀ rest,
    pieces? (encodeChar c ++ rest) = (pieces? rest).map fun q => (p :: q.1, q.2) := by
  have letter : ∀ e, e ≠ 'u' → escaped? e = some c → ∃ p, Stands p c ∧ ∀ rest,
      pieces? (['\\', e] ++ rest) = (pieces? rest).map fun q => (p :: q.1, q.2) :=
    fun e hu he => ⟨.char c, Or.inl rfl, pieces?_escape hu he⟩
  unfold encodeChar
  split_ifs with hquote hslash hblank hline hreturn htab hback hfeed
  · subst hquote
    exact letter '"' (by decide) rfl
  · subst hslash
    exact letter '\\' (by decide) rfl
  · exact ⟨.char c, Or.inl rfl, pieces?_plain hblank hquote hslash⟩
  · subst hline
    exact letter 'n' (by decide) rfl
  · subst hreturn
    exact letter 'r' (by decide) rfl
  · subst htab
    exact letter 't' (by decide) rfl
  · subst hback
    exact letter 'b' (by decide) rfl
  · subst hfeed
    exact letter 'f' (by decide) rfl
  · have hc : c.toNat < 32 := Nat.lt_of_not_le hblank
    exact ⟨.unit c.toNat, Or.inr ⟨rfl, by omega⟩, pieces?_control hc⟩

/-! ## Strings -/

theorem pieces?_encode (s rest : List Char) :
    ∃ ps, pieces? (encode s ++ '"' :: rest) = some (ps, rest) ∧ join? ps = some s := by
  induction s with
  | nil => exact ⟨[], rfl, rfl⟩
  | cons c s ih =>
    obtain ⟨ps, hps, hjoin⟩ := ih
    obtain ⟨p, hp, hpiece⟩ := exists_piece c
    refine ⟨p :: ps, ?_, ?_⟩
    · rw [encode, List.flatMap_cons, List.append_assoc, hpiece]
      show (pieces? (encode s ++ '"' :: rest)).map _ = _
      rw [hps]
      rfl
    · rw [join?_cons hp, hjoin]
      rfl

end Vetting.Quoted
