import Vetting.Proofs.Validation.Halt

/-!
# What a check is given

Where there are arguments, a check is given one for each parameter of its rule
and no others, whether all were handed on or a part was taken out. Where there
are none, it is given none, and no rule can lack one.
-/

namespace Vetting

/-- The arguments that are given: one for each parameter of the rule, as it is among all of them. -/
structure RuleInfo.Supplied (r : RuleInfo) (args given : Arguments) : Prop where
  keys : given.keys = r.params
  values : ∀ name ∈ r.params, given.get? name = args.get? name

section
variable {r : RuleInfo} {args given : Arguments} {fault : Fault} {name : String}

theorem RuleInfo.not_lacks_of_isEmpty (h : args.isEmpty = true) : ¬ r.Lacks args name := by
  intro hlacks
  rw [hlacks.1] at h
  cases h

theorem RuleInfo.supplied_of_select (hne : args.isEmpty = false) (h : r.select args = .ok given) :
    r.Supplied args given := by
  obtain ⟨hlacks, hgiven⟩ := RuleInfo.select_eq_ok_iff.1 h
  subst hgiven
  refine ⟨NameMap.keys_restrict_eq_iff.2 fun name hname => ?_,
    fun name hname => NameMap.get?_restrict_of_mem hname⟩
  -- the rule would lack a parameter that has no argument
  refine Decidable.byContradiction fun hkey => hlacks name ⟨hne, hname, ?_⟩
  exact NameMap.get?_eq_none_iff.2 hkey

theorem RuleInfo.given_of_isEmpty (h : args.isEmpty = true) (hs : r.select args = .ok given) :
    given = ∅ := by
  obtain rfl := NameMap.isEmpty_iff.1 h
  exact (RuleInfo.select_eq_ok_iff.1 hs).2

end

section
variable {σ ι : Type}

theorem missing_of_result {bindings : Bindings σ} {x : ι} {args : Option Arguments}
    {line : List (Posting ι)} {memos : Memos} {s : σ} {rule name : String}
    (h : (validate bindings x args line memos s).result =
      .error (.breach (.missingArgument rule name))) :
    ∃ p ∈ line, p.rule.Lacks (args.getD ∅) name := by
  obtain ⟨k, p, hp, hhalts⟩ := result_eq_error_iff.1 ⟨h, rfl⟩
  obtain ⟨turns, ⟨-, -, rest, hline⟩, -⟩ := hp
  have hmem : p ∈ line := by simp [hline]
  cases hhalts with
  | lacking hfirst => exact ⟨p, hmem, hfirst.1⟩

/-- The calls of a validation are those of the rules at some places of the line. Each gets the
arguments for the parameters of its rule and no others, or none where there are none; and then the
validation does not end because an argument is missing. -/
theorem calls_get_parameters (bindings : Bindings σ) (x : ι) (args : Option Arguments)
    (line : List (Posting ι)) (memos : Memos) (s : σ) :
    (∀ c, c ∈ (validate bindings x args line memos s).calls ↔ ∃ k p given answer,
      CalledAt bindings x args line memos s k p given answer ∧ c = ⟨p.id, given⟩) ∧
    (∀ k p given answer, CalledAt bindings x args line memos s k p given answer →
      if (args.getD ∅).isEmpty then given = ∅ else p.rule.Supplied (args.getD ∅) given) ∧
    ((args.getD ∅).isEmpty = true → ∀ rule name,
      (validate bindings x args line memos s).result ≠
        .error (.breach (.missingArgument rule name))) := by
  refine ⟨fun c => mem_calls_iff, ?_, ?_⟩
  · intro k p given answer h
    split
    · rename_i hempty
      exact RuleInfo.given_of_isEmpty hempty h.selected
    · rename_i hne
      exact RuleInfo.supplied_of_select (Bool.not_eq_true _ ▸ hne) h.selected
  · intro hempty rule name hresult
    obtain ⟨p, -, hlacks⟩ := missing_of_result hresult
    exact RuleInfo.not_lacks_of_isEmpty hempty hlacks

end

end Vetting
