import Mathlib.Data.List.Basic

/-!
# Lists

Two facts about lists: where an element of a list stands when one more was added
at the end, and that a list without repetition has none to be erased.
-/

namespace Vetting

variable {α : Type}

theorem concat_eq_append_cons {l before after : List α} {a x : α}
    (h : l ++ [a] = before ++ x :: after) :
    (after = [] ∧ l = before ∧ a = x) ∨
      ∃ after', after = after' ++ [a] ∧ l = before ++ x :: after' := by
  rcases List.eq_nil_or_concat after with rfl | ⟨after', last, rfl⟩
  · obtain ⟨hl, ha⟩ := List.append_singleton_inj.1 h
    exact Or.inl ⟨rfl, hl, ha⟩
  · rw [List.concat_eq_append, ← List.cons_append, ← List.append_assoc] at h
    obtain ⟨hl, rfl⟩ := List.append_singleton_inj.1 h
    exact Or.inr ⟨after', List.concat_eq_append, hl⟩

theorem eraseDups_eq_self [BEq α] [LawfulBEq α] {l : List α} (h : l.Nodup) :
    l.eraseDups = l := by
  induction l with
  | nil => rfl
  | cons a l ih =>
    obtain ⟨ha, hl⟩ := List.nodup_cons.1 h
    have hrest : l.filter (fun b => !b == a) = l := by
      apply List.filter_eq_self.2
      intro b hb
      have hne : b ≠ a := fun h => ha (h ▸ hb)
      simp [hne]
    rw [List.eraseDups_cons, hrest, ih hl]

end Vetting
