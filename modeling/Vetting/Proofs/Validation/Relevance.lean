import Vetting.Proofs.Rule.Selection
import Vetting.Proofs.Validation.Place

/-!
# Arguments that matter

Arguments that agree on the parameters of every rule of a line are the same to
a validation: the run is the same in all that it leaves behind, its result and
its calls among them. What a check is called with are the arguments for the
parameters of its rule, and no others.
-/

namespace Vetting

section
variable {σ ι : Type} {bindings : Bindings σ} {x : ι} {args args' : Arguments}

theorem attempt_congr {p : Posting ι} (h : p.rule.select args = p.rule.select args')
    (memos : Memos) (s : σ) :
    attempt bindings x args p memos s = attempt bindings x args' p memos s := by
  unfold attempt
  rw [h]

theorem validateFrom_congr : ∀ (line : List (Posting ι)),
    (∀ p ∈ line, p.rule.select args = p.rule.select args') →
      ∀ (gathered : Option Report) (lost : NameSet) (memos : Memos) (s : σ),
        validateFrom bindings x args line gathered lost memos s =
          validateFrom bindings x args' line gathered lost memos s
  | [], _, _, _, _, _ => rfl
  | p :: line, h, gathered, lost, memos, s => by
    rw [List.forall_mem_cons] at h
    cases hm : (bindings.dependencies p.id).meets lost with
    | true => rw [validateFrom_skip hm, validateFrom_skip hm, validateFrom_congr line h.2]
    | false =>
      rcases ha : attempt bindings x args p memos s with ⟨verdict, calls, memos', s'⟩
      have ha' := (attempt_congr h.1 memos s).symm.trans ha
      cases verdict with
      | error fault => rw [validateFrom_halt hm ha, validateFrom_halt hm ha']
      | ok verdict =>
        rw [validateFrom_run hm ha, validateFrom_run hm ha', validateFrom_congr line h.2]

/-- Arguments that agree on the parameters of the rules are not told apart, neither by the result
nor by a check. -/
theorem validate_eq_of_agree {line : List (Posting ι)} (hne : args.isEmpty = false)
    (hne' : args'.isEmpty = false)
    (hagree : ∀ p ∈ line, ∀ name ∈ p.rule.params, args.get? name = args'.get? name)
    (memos : Memos) (s : σ) :
    validate bindings x (some args) line memos s = validate bindings x (some args') line memos s ∧
    ∀ c ∈ (validate bindings x (some args) line memos s).calls, ∃ p ∈ line, c.rule = p.id ∧
      c.arguments = args.restrict p.rule.params ∧ c.arguments = args'.restrict p.rule.params := by
  constructor
  · refine validateFrom_congr line (fun p hp => ?_) none ∅ memos s
    exact RuleInfo.select_congr hne hne' (hagree p hp)
  · intro c hc
    obtain ⟨k, p, given, answer, hcalled, rfl⟩ := mem_calls_iff.1 hc
    have hp : p ∈ line := by
      obtain ⟨turns, rest, _, _, _, _, _, hline, _⟩ := hcalled.reached
      rw [hline]
      simp
    have hgiven := (RuleInfo.select_eq_ok_iff.1 hcalled.selected).2
    exact ⟨p, hp, rfl, hgiven, hgiven.trans (NameMap.restrict_congr (hagree p hp))⟩

def taking (id : RuleId) (name : String) (params : List String) : Posting Unit where
  id := id
  rule := {
    name := name, params := .ofList params, reads := ∅, signature := .method
    check := .returning fun _ _ => .ok ()
    target := none, discards := [], owner := none }

/-- The first rule takes all that there is, or a part of it; the second lacks the same of both. -/
theorem spare_argument_ignored :
    let line := [taking 0 "first" ["a"], taking 1 "second" ["a", "c", "b"]]
    let args : Arguments := .ofList [("a", .null)]
    let args' := args.insert "spare" (.bool true)
    validate (∅ : Bindings Unit) () (some args) line ∅ () =
        validate (∅ : Bindings Unit) () (some args') line ∅ () ∧
      (validate (∅ : Bindings Unit) () (some args) line ∅ ()).result =
        .error (.breach (.missingArgument "second" "b")) := by
  intro line args args'
  refine ⟨(validate_eq_of_agree rfl rfl ?_ ∅ ()).1, rfl⟩
  intro p hp name hname
  have hspare : name ≠ "spare" := by
    rintro rfl
    rcases List.mem_pair.1 hp with rfl | rfl
    · exact absurd hname (by decide)
    · exact absurd hname (by decide)
  rw [NameMap.get?_insert, if_neg hspare]

end

end Vetting
