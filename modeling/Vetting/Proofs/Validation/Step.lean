import Vetting.Validation.Basic

/-!
# One step of a validation

A rule whose turn it is is skipped, or ends the run, or leaves a report and lost
fields to the rest of the line. Which of these, its dependencies and its attempt
tell; whoever reasons about `validateFrom` needs no more than the three lemmas
`validateFrom_skip`, `validateFrom_halt` and `validateFrom_run`.
-/

namespace Vetting

namespace Run

variable {σ : Type}

theorem after_after (run : Run σ) (es es' : List Event) (cs cs' : List Call) :
    (run.after es cs).after es' cs' = run.after (es' ++ es) (cs' ++ cs) := by
  unfold after
  simp only [List.append_assoc]

end Run

section
variable {σ ι : Type} {bindings : Bindings σ} {x : ι} {args : Arguments} {p : Posting ι}
  {line : List (Posting ι)} {gathered : Option Report} {lost : NameSet} {memos : Memos} {s : σ}

theorem validateFrom_skip (h : (bindings.dependencies p.id).meets lost = true) :
    validateFrom bindings x args (p :: line) gathered lost memos s =
      (validateFrom bindings x args line gathered lost memos s).after
        [.skipping p.rule.name (bindings.dependencies p.id)] [] := by
  rw [← NameSet.not_isEmpty_and_meets] at h
  simp only [validateFrom, h, if_true]

theorem validateFrom_halt {fault : Fault} {calls : List Call} {memos' : Memos} {s' : σ}
    (h : (bindings.dependencies p.id).meets lost = false)
    (ha : attempt bindings x args p memos s = ⟨.error fault, calls, memos', s'⟩) :
    validateFrom bindings x args (p :: line) gathered lost memos s =
      ⟨.error fault, [.running p.rule.name], calls, memos', s'⟩ := by
  rw [← NameSet.not_isEmpty_and_meets] at h
  simp only [validateFrom, h, ha, Bool.false_eq_true, if_false]

theorem validateFrom_run {report : Option Report} {fields : NameSet} {calls : List Call}
    {memos' : Memos} {s' : σ} (h : (bindings.dependencies p.id).meets lost = false)
    (ha : attempt bindings x args p memos s = ⟨.ok (report, fields), calls, memos', s'⟩) :
    validateFrom bindings x args (p :: line) gathered lost memos s =
      (validateFrom bindings x args line (gatherWith gathered report) (lost ∪ fields)
        memos' s').after [.running p.rule.name] calls := by
  rw [← NameSet.not_isEmpty_and_meets] at h
  simp only [validateFrom, h, ha, Bool.false_eq_true, if_false]

/-! ## Attempts -/

theorem attempt_of_unselected {fault : Fault} (h : p.rule.select args = .error fault) :
    attempt bindings x args p memos s = ⟨.error fault, [], memos, s⟩ := by
  simp only [attempt, h]

theorem attempt_of_invoked {given : Arguments} {outcome : Except Fault Outcome} {memo : Memo}
    {s' : σ} (h : p.rule.select args = .ok given)
    (hi : p.rule.invoke (bindings.get? p.id) x given (memos.of p.id) s = (outcome, memo, s')) :
    attempt bindings x args p memos s =
      ⟨outcome.bind (·.verdict p.rule.name), [⟨p.id, given⟩], memos.set p.id memo, s'⟩ := by
  simp only [attempt, h, hi]

theorem first_call_of_attempt {verdict : Except Fault (Option Report × NameSet)} {c : Call}
    {memos' : Memos} {s' : σ} (h : (bindings.dependencies p.id).meets lost = false)
    (ha : attempt bindings x args p memos s = ⟨verdict, [c], memos', s'⟩) :
    [c] <+: (validateFrom bindings x args (p :: line) gathered lost memos s).calls := by
  cases verdict with
  | error fault => simp only [validateFrom_halt h ha, List.prefix_rfl]
  | ok verdict =>
    rw [validateFrom_run h ha]
    exact List.prefix_append _ _

end

end Vetting
