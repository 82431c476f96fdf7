import Vetting.Proofs.Check.Restriction
import Vetting.Validation.Basic

/-!
# The arguments that a rule is given

A rule is given its parameters and nothing else, whatever the branch by which
the arguments were selected (`select_eq_ok_iff`). It lacks a parameter that has
no argument while others have one, and then the least of those that it lacks is
to blame (`select_eq_error_iff`). So arguments that agree on the parameters are
the same to the rule.
-/

namespace Vetting.RuleInfo

variable {r : RuleInfo} {args args' given : Arguments} {fault : Fault}

/-- There are arguments, and none for this parameter. -/
def Lacks (r : RuleInfo) (args : Arguments) (name : String) : Prop :=
  args.isEmpty = false ∧ name ∈ r.params ∧ args.get? name = none

/-- The first parameter that the rule lacks, in the order of names. -/
def LacksFirst (r : RuleInfo) (args : Arguments) (name : String) : Prop :=
  r.Lacks args name ∧ ∀ other, r.Lacks args other → name ≤ other

theorem lacksFirst_of_find? {name : String} (hne : args.isEmpty = false)
    (h : r.params.toList.find? (!args.contains ·) = some name) : r.LacksFirst args name := by
  obtain ⟨hname, before, after, hsplit, hbefore⟩ := List.find?_eq_some_iff_append.1 h
  have hmem : name ∈ r.params := by
    rw [← NameSet.mem_toList, hsplit]
    simp
  refine ⟨⟨hne, hmem, ?_⟩, ?_⟩
  · simpa [NameMap.contains] using hname
  · rintro other ⟨-, hother, hnone⟩
    rw [← NameSet.mem_toList, hsplit, List.mem_append, List.mem_cons] at hother
    have hlacking : (!args.contains other) = true := by rw [NameMap.contains, hnone]; rfl
    rcases hother with hmem | rfl | hmem
    · have hcontains := hbefore other hmem
      rw [hlacking] at hcontains
      cases hcontains
    · exact String.le_refl other
    · have hincreasing := r.params.increasing
      rw [hsplit, List.pairwise_append] at hincreasing
      exact String.not_lt.1 (String.lt_asymm ((List.pairwise_cons.1 hincreasing.2.1).1 other hmem))

theorem not_lacks_of_find? (h : r.params.toList.find? (!args.contains ·) = none) (name : String) :
    ¬ r.Lacks args name := by
  rintro ⟨-, hmem, hnone⟩
  have hcontains := List.find?_eq_none.1 h name hmem
  rw [NameMap.contains, hnone] at hcontains
  exact hcontains rfl

theorem restrict_of_taken (h : (args.isEmpty || args.hasExactly r.params) = true) :
    (∀ name, ¬ r.Lacks args name) ∧ args.restrict r.params = args := by
  rcases Bool.or_eq_true_iff.1 h with hempty | hexactly
  · obtain rfl := NameMap.isEmpty_iff.1 hempty
    exact ⟨fun name hlacks => absurd hlacks.1 (by decide), rfl⟩
  · have hkeys := NameMap.hasExactly_iff.1 hexactly
    refine ⟨?_, NameMap.restrict_of_hasExactly hexactly⟩
    rintro name ⟨-, hmem, hnone⟩
    exact NameMap.get?_eq_none_iff.1 hnone (hkeys ▸ hmem)

theorem select_cases (r : RuleInfo) (args : Arguments) :
    (r.select args = .ok (args.restrict r.params) ∧ ∀ name, ¬ r.Lacks args name) ∨
      ∃ name, r.select args = .error (.breach (.missingArgument r.name name)) ∧
        r.LacksFirst args name := by
  unfold select
  split
  · rename_i htaken
    obtain ⟨hlacks, hself⟩ := restrict_of_taken htaken
    exact Or.inl ⟨by rw [hself], hlacks⟩
  · rename_i htaken
    rw [Bool.or_eq_true, not_or, Bool.not_eq_true] at htaken
    split
    · rename_i missing hfind
      exact Or.inr ⟨missing, rfl, lacksFirst_of_find? htaken.1 hfind⟩
    · rename_i hfind
      exact Or.inl ⟨rfl, not_lacks_of_find? hfind⟩

theorem select_eq_ok_iff :
    r.select args = .ok given ↔ (∀ name, ¬ r.Lacks args name) ∧ given = args.restrict r.params := by
  rcases r.select_cases args with ⟨hselect, hlacks⟩ | ⟨name, hselect, hlacks⟩
  · rw [hselect, Except.ok.injEq]
    exact ⟨fun h => ⟨hlacks, h.symm⟩, fun h => h.2.symm⟩
  · rw [hselect]
    exact ⟨nofun, fun h => absurd hlacks.1 (h.1 name)⟩

theorem select_eq_error_iff : r.select args = .error fault ↔
    ∃ name, r.LacksFirst args name ∧ fault = .breach (.missingArgument r.name name) := by
  rcases r.select_cases args with ⟨hselect, hlacks⟩ | ⟨name, hselect, hlacks⟩
  · rw [hselect]
    refine ⟨nofun, ?_⟩
    rintro ⟨name, hfirst, -⟩
    exact absurd hfirst.1 (hlacks name)
  · rw [hselect, Except.error.injEq]
    constructor
    · rintro rfl
      exact ⟨name, hlacks, rfl⟩
    · rintro ⟨other, hother, rfl⟩
      rw [String.le_antisymm (hlacks.2 other hother.1) (hother.2 name hlacks.1)]

/-- Arguments that agree on the parameters are the same to a rule. -/
theorem select_congr (hne : args.isEmpty = false) (hne' : args'.isEmpty = false)
    (h : ∀ name ∈ r.params, args.get? name = args'.get? name) : r.select args = r.select args' := by
  have hlacks : ∀ name, r.Lacks args name ↔ r.Lacks args' name := by
    intro name
    unfold Lacks
    rw [hne, hne', and_congr_right_iff, and_congr_right_iff]
    exact fun _ hmem => by rw [h name hmem]
  rcases r.select_cases args with ⟨hselect, hnone⟩ | ⟨name, hselect, hfirst⟩
  · rw [hselect, NameMap.restrict_congr h]
    exact (select_eq_ok_iff.2 ⟨fun name hname => hnone name ((hlacks name).2 hname), rfl⟩).symm
  · rw [hselect]
    have hfirst' : r.LacksFirst args' name :=
      ⟨(hlacks name).1 hfirst.1, fun other hother => hfirst.2 other ((hlacks other).2 hother)⟩
    exact (select_eq_error_iff.2 ⟨name, hfirst', rfl⟩).symm

end Vetting.RuleInfo
