import Mathlib.Logic.Relation
import Vetting.Proofs.Lineage.History

/-!
# Types among their own ancestors

A parent that is not declared counts as a root, and it may be declared later,
even below a type that it is a parent of. A type is refused as its own parent,
but it is not looked for among the ancestors of its parents. So a chain can
repeat the type that it is the chain of, and ancestry can go in a circle. Both
happen exactly when a type is declared with a parent that has it for an
ancestor already: for a repetition in the chain of the parent itself, for a
circle in any number of steps.
-/

namespace Vetting.Lineage

open Relation

/-- `b` is an ancestor of `a`. -/
def Inherits (l : Lineage) (a b : TypeKey) : Prop :=
  ∃ chain, l.chain? a = some chain ∧ b ∈ chain.tail

def Acyclic (l : Lineage) : Prop := ∀ a, ¬ TransGen l.Inherits a a

section
variable {l l' : Lineage} {acts before : List Act} {ty a b p : TypeKey}
  {parents chain : List TypeKey}

theorem inherits_congr (h : ∀ x, l.chain? x = l'.chain? x) : l.Inherits = l'.Inherits := by
  funext a b
  simp only [Inherits, h]

theorem mem_contribution_iff : b ∈ (after acts).contribution p ↔
    b = p ∨ (after acts).Inherits p b := by
  unfold contribution Inherits
  cases h : (after acts).chain? p with
  | none => simp
  | some chain =>
    obtain ⟨tail, rfl⟩ := head_of_chain? h
    simp

theorem Declared.nodup_iff (h : Declared acts before ty parents chain) :
    chain.tail.Nodup ∧ (chain.Nodup ↔ ∀ p ∈ parents, ¬ (after before).Inherits p ty) := by
  obtain ⟨tail, rfl, horders, hmem⟩ := h.tail
  obtain ⟨_, hok⟩ := h.answer
  obtain ⟨hself, -⟩ := declare_eq_ok_iff.1 hok
  refine ⟨horders.nodup, ?_⟩
  rw [List.nodup_cons, hmem, and_iff_left horders.nodup, not_exists]
  refine forall_congr' fun p => ?_
  rw [not_and, mem_contribution_iff]
  refine imp_congr_right fun hp => ?_
  have hne : ty ≠ p := fun e => hself (e ▸ hp)
  rw [or_iff_right hne]

/-! ## Circles -/

theorem inherits_of_declare (h : (after acts).declare ty parents = .ok (chain, l')) :
    l'.Inherits a b ↔
      (after acts).Inherits a b ∨ a = ty ∧ ∃ p ∈ parents, b = p ∨ (after acts).Inherits p b := by
  have hd : Declared (acts ++ [.declare ty parents]) acts ty parents chain :=
    ⟨List.prefix_rfl, _, h⟩
  obtain ⟨tail, rfl, -, hmem⟩ := hd.tail
  obtain ⟨-, hnew, -⟩ := declare_eq_ok_iff.1 h
  unfold Inherits
  rw [chain?_of_declare h]
  by_cases ha : a = ty
  · subst ha
    simp only [if_true, hnew, Option.some.injEq, exists_eq_left', List.tail_cons, hmem,
      mem_contribution_iff, true_and]
    simp [Inherits]
  · simp [ha]

theorem transGen_mono (h : (after acts).declare ty parents = .ok (chain, l'))
    (hab : TransGen (after acts).Inherits a b) : TransGen l'.Inherits a b :=
  TransGen.mono (fun _ _ hold => (inherits_of_declare h).2 (Or.inl hold)) a b hab

theorem transGen_of_declare (h : (after acts).declare ty parents = .ok (chain, l'))
    (hab : TransGen l'.Inherits a b) : TransGen (after acts).Inherits a b ∨
      ReflTransGen (after acts).Inherits a ty ∧
        ∃ p ∈ parents, ReflTransGen (after acts).Inherits p b := by
  induction hab with
  | single hstep =>
    rcases (inherits_of_declare h).1 hstep with hold | ⟨rfl, p, hp, hfrom⟩
    · exact Or.inl (.single hold)
    · refine Or.inr ⟨.refl, p, hp, ?_⟩
      rcases hfrom with rfl | hold
      · exact .refl
      · exact .single hold
  | tail hfront hstep ih =>
    rcases (inherits_of_declare h).1 hstep with hold | ⟨rfl, p, hp, hfrom⟩
    · rcases ih with hall | ⟨hto, q, hq, hthence⟩
      · exact Or.inl (hall.tail hold)
      · exact Or.inr ⟨hto, q, hq, hthence.tail hold⟩
    · -- the way comes to `ty` once more: its front, up to the first time, is of old ancestors
      refine Or.inr ⟨?_, p, hp, ?_⟩
      · rcases ih with hall | ⟨hto, -⟩
        · exact hall.to_reflTransGen
        · exact hto
      · rcases hfrom with rfl | hold
        · exact .refl
        · exact .single hold

theorem acyclic_of_declare_iff (h : (after acts).declare ty parents = .ok (chain, l')) :
    l'.Acyclic ↔ (after acts).Acyclic ∧
      ∀ p ∈ parents, ¬ TransGen (after acts).Inherits p ty := by
  constructor
  · refine fun hacyclic => ⟨fun a ha => hacyclic a (transGen_mono h ha), ?_⟩
    intro p hp hback
    have hup : l'.Inherits ty p := (inherits_of_declare h).2 (Or.inr ⟨rfl, p, hp, Or.inl rfl⟩)
    exact hacyclic ty (.head hup (transGen_mono h hback))
  · rintro ⟨hacyclic, hback⟩ a ha
    rcases transGen_of_declare h ha with hold | ⟨hto, p, hp, hfrom⟩
    · exact hacyclic a hold
    · obtain ⟨hself, -⟩ := declare_eq_ok_iff.1 h
      rcases reflTransGen_iff_eq_or_transGen.1 (hfrom.trans hto) with rfl | hcircle
      · exact hself hp
      · exact hback p hp hcircle

theorem acyclic_empty : (∅ : Lineage).Acyclic := by
  intro a ha
  obtain ⟨_, -, chain, h, -⟩ := TransGen.tail'_iff.1 ha
  cases h

theorem acyclic_after_iff : (after acts).Acyclic ↔
    ∀ before ty parents chain, Declared acts before ty parents chain →
      ∀ p ∈ parents, ¬ TransGen (after before).Inherits p ty := by
  induction acts using List.reverseRecOn with
  | nil => exact iff_of_true acyclic_empty fun _ _ _ _ h => absurd h not_declared_nil
  | append_singleton acts act ih =>
    rw [after_concat]
    rcases perform_cases (after acts) act with ⟨ty, parents, chain, rfl, hd⟩ | ⟨hnone, hsame⟩
    · rw [acyclic_of_declare_iff hd, ih]
      constructor
      · rintro ⟨hall, hlast⟩ before ty' parents' chain' h
        rcases declared_concat_iff.1 h with hold | ⟨rfl, hact, -⟩
        · exact hall before ty' parents' chain' hold
        · cases hact
          exact hlast
      · intro hall
        refine ⟨fun before ty' parents' chain' h => ?_, ?_⟩
        · exact hall before ty' parents' chain' (declared_concat_iff.2 (Or.inl h))
        · exact hall acts ty parents chain ⟨List.prefix_rfl, _, hd⟩
    · have hold : ∀ before ty parents chain, Declared (acts ++ [act]) before ty parents chain ↔
          Declared acts before ty parents chain := by
        intro before ty parents chain
        rw [declared_concat_iff, or_iff_left]
        rintro ⟨-, hact, l, hok⟩
        exact hnone ty parents _ hact hok
      simp only [Acyclic, inherits_congr hsame, hold]
      exact ih

/-- A chain repeats nothing unless a parent of its type had the type for an ancestor when the type
was declared, and then it repeats just the type. Ancestry goes in no circle unless some type was
declared with a parent that was led to it by ancestors. -/
theorem nodup_iff_and_acyclic_iff (acts : List Act) :
    (∀ ty chain, (after acts).chain? ty = some chain → ∃ before parents,
      Declared acts before ty parents chain ∧ chain.tail.Nodup ∧
        (chain.Nodup ↔ ∀ p ∈ parents, ¬ (after before).Inherits p ty)) ∧
    ((after acts).Acyclic ↔ ∀ before ty parents chain, Declared acts before ty parents chain →
      ∀ p ∈ parents, ¬ TransGen (after before).Inherits p ty) := by
  refine ⟨fun ty chain h => ?_, acyclic_after_iff⟩
  obtain ⟨before, parents, hd⟩ := chain?_after_iff.1 h
  exact ⟨before, parents, hd, hd.nodup_iff⟩

end

def mutualParents : List Act := [.declare "B" ["A"], .declare "A" ["B"]]

/-- Two types that are declared as parents of each other: the second one is its own ancestor. -/
theorem own_ancestor_of_mutualParents :
    (after mutualParents).chain? "A" = some (["A", "B", "A"] : List TypeKey) ∧
      ¬ (["A", "B", "A"] : List TypeKey).Nodup ∧
      (∃ before parents, Declared mutualParents before "A" parents ["A", "B", "A"] ∧
        ∃ p ∈ parents, (after before).Inherits p "A") ∧
      ¬ (after mutualParents).Acyclic := by
  have hchain : (after mutualParents).chain? "A" = some (["A", "B", "A"] : List TypeKey) := by cbv
  have hrepeats : ¬ (["A", "B", "A"] : List TypeKey).Nodup := by decide
  obtain ⟨before, parents, hd, -, hiff⟩ := (nodup_iff_and_acyclic_iff mutualParents).1 _ _ hchain
  have hparent : ∃ p ∈ parents, (after before).Inherits p "A" := by
    refine Classical.byContradiction fun hnone => hrepeats (hiff.2 fun p hp hup => ?_)
    exact hnone ⟨p, hp, hup⟩
  refine ⟨hchain, hrepeats, ⟨before, parents, hd, hparent⟩, fun hacyclic => ?_⟩
  obtain ⟨p, hp, hup⟩ := hparent
  exact (nodup_iff_and_acyclic_iff mutualParents).2.1 hacyclic _ _ _ _ hd p hp (.single hup)

end Vetting.Lineage
