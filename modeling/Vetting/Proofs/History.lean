import Mathlib.Data.List.Basic
import Mathlib.Data.List.Induction

/-!
# Histories

A history is a list of acts that a fold performs one after another, and a moment
of it is what comes before one of its acts. Of what stays once it is there, a
run can be asked where it came from: it was brought about at some moment by the
act that follows.
-/

namespace Vetting

section
variable {σ α : Type} {acts before : List α} {act last : α}

theorem moment_concat_iff : before ++ [act] <+: acts ++ [last] ↔
    before ++ [act] <+: acts ∨ before = acts ∧ act = last := by
  rw [List.prefix_concat_iff, List.append_singleton_inj, or_comm]

theorem not_moment_nil : ¬ before ++ [act] <+: [] := by
  simp

theorem prefix_of_moment (h : before ++ [act] <+: acts) : before <+: acts :=
  (List.prefix_append _ _).trans h

/-- What stays once it holds, and does not hold at first, holds after just those acts of which one
has brought it about. -/
theorem foldl_iff_exists_moment (step : σ → α → σ) (start : σ) (holds : σ → Prop)
    {brings : σ → α → Prop} (hstart : ¬ holds start)
    (hstep : ∀ s act, holds (step s act) ↔ holds s ∨ brings s act) :
    holds (acts.foldl step start) ↔
      ∃ before act, before ++ [act] <+: acts ∧ brings (before.foldl step start) act := by
  induction acts using List.reverseRecOn with
  | nil => exact iff_of_false hstart fun ⟨_, _, h, _⟩ => not_moment_nil h
  | append_singleton acts last ih =>
    rw [List.foldl_concat, hstep, ih]
    constructor
    · rintro (⟨before, act, hmoment, hbrings⟩ | hbrings)
      · exact ⟨before, act, moment_concat_iff.2 (Or.inl hmoment), hbrings⟩
      · exact ⟨acts, last, List.prefix_rfl, hbrings⟩
    · rintro ⟨before, act, hmoment, hbrings⟩
      rcases moment_concat_iff.1 hmoment with hmoment | ⟨rfl, rfl⟩
      · exact Or.inl ⟨before, act, hmoment, hbrings⟩
      · exact Or.inr hbrings

end

end Vetting
