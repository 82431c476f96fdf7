import Vetting.Proofs.Report.Pruning
import Vetting.Proofs.Rule.Afresh

/-!
# What an invocation makes of a report

A report by the check goes through two layers. The first puts it under the label
of the target, or puts the fault in front of it that the label was looked for
with; the second says which fields are lost. No finding is dropped on the way.
What is remembered of label and lost fields is used as it is, and what is not is
read off the answer that the source of shapes gives then.
-/

namespace Vetting

namespace Rule

variable {σ ι : Type}

/-- The label of the target, as it is remembered or else as it is now. -/
def labelWith (r : Rule ι) (binding : Option (Binding σ)) (target : FieldRef) (memo : Memo)
    (s : σ) : Except Fault String :=
  match memo.label with
  | some label => .ok label
  | none => r.labelNow binding target s

def labelSought (r : Rule ι) (binding : Option (Binding σ)) (memo : Memo) (s : σ) : σ :=
  if r.target.isSome && memo.label.isNone then askedOf binding s else s

/-- There is a target, and it has no label. -/
def Unplaced (r : Rule ι) (binding : Option (Binding σ)) (memo : Memo) (s : σ) : Prop :=
  ∃ target fault, r.target = some target ∧ r.labelWith binding target memo s = .error fault

def placed (r : Rule ι) (binding : Option (Binding σ)) (memo : Memo) (s : σ) (report : Report) :
    Report :=
  match r.target with
  | none => report
  | some target => match r.labelWith binding target memo s with
    | .ok label => report.under label
    | .error fault => (Report.message fault.message).merge report

/-- The findings in their place: as they are, or all under the label, or behind the fault. -/
def placedFindings (r : Rule ι) (binding : Option (Binding σ)) (memo : Memo) (s : σ)
    (fs : List Finding) : List Finding :=
  match r.target with
  | none => fs
  | some target => match r.labelWith binding target memo s with
    | .ok label => fs.map (Finding.under label)
    | .error fault => ⟨[], fault.message⟩ :: fs

def failure (r : Rule ι) (binding : Option (Binding σ)) (x : ι) (args : Arguments) (memo : Memo)
    (s : σ) : Option Report :=
  match r.check.call x args with
  | .error (.invalid report) => some (r.placed binding memo s report)
  | .error (.trouble cause) => some (.message cause.message)
  | _ => none

def lossWith (r : Rule ι) (binding : Option (Binding σ)) (memo : Memo) (s : σ) : NameSet :=
  memo.discards.getD (r.lossNow binding s)

end Rule

section
variable {σ ι : Type} {r : Rule ι} {binding : Option (Binding σ)} {x : ι} {args : Arguments}
  {memo memo' : Memo} {s s' : σ} {outcome : Outcome} {report : Report}

theorem findings_placed : (r.placed binding memo s report).findings =
    r.placedFindings binding memo s report.findings := by
  unfold Rule.placed Rule.placedFindings
  cases r.target with
  | none => rfl
  | some target =>
    cases h : r.labelWith binding target memo s with
    | ok label => simp only [h, Report.findings_under]
    | error fault => simp only [h, Report.findings_message_merge]

/-! ## The two lookups -/

theorem targetLabel_eq_labelWith {target : FieldRef} {answer : Except Fault String}
    (h : r.targetLabel binding target memo s = (answer, memo', s')) :
    answer = r.labelWith binding target memo s ∧ memo'.discards = memo.discards ∧
      (∀ label, memo'.label = some label ↔ r.labelWith binding target memo s = .ok label) ∧
      s' = if memo.label.isNone then askedOf binding s else s := by
  unfold Rule.labelWith
  cases hm : memo.label with
  | none =>
    have hnone : ∀ label, memo.label = some label → r.labelNow binding target s = .ok label := by
      simp [hm]
    obtain ⟨hanswer, hdiscards, hlabel, hstate⟩ := targetLabel_eq_labelNow hnone h
    rw [hm] at hstate
    exact ⟨hanswer, hdiscards, hlabel, hstate⟩
  | some label =>
    simp only [Rule.targetLabel, hm] at h
    cases h
    simp [hm]

theorem labelWith_of_targetLabel {target : FieldRef} {answer : Except Fault String}
    (h : r.targetLabel binding target memo s = (answer, memo', s')) :
    r.labelWith binding target memo' s = r.labelWith binding target memo s := by
  obtain ⟨-, -, hlabel, -⟩ := targetLabel_eq_labelWith h
  cases hw : r.labelWith binding target memo s with
  | ok label =>
    unfold Rule.labelWith
    rw [(hlabel label).2 hw]
  | error fault =>
    -- nothing was remembered before, and nothing is now
    have hnone : memo'.label = none := by
      apply Option.eq_none_iff_forall_ne_some.2
      intro label hsome
      rw [(hlabel label).1 hsome] at hw
      cases hw
    unfold Rule.labelWith at hw ⊢
    rw [hnone]
    cases hm : memo.label with
    | none =>
      rw [hm] at hw
      exact hw
    | some label =>
      rw [hm] at hw
      cases hw

theorem labelWith_congr {target : FieldRef}
    (h : ∀ b, binding = some b → b.shape s = b.shape s') :
    r.labelWith binding target memo s = r.labelWith binding target memo s' := by
  unfold Rule.labelWith Rule.labelNow
  cases binding with
  | none => rfl
  | some b => simp only [h b rfl]

theorem failure_congr (h : ∀ target, r.target = some target →
    r.labelWith binding target memo s = r.labelWith binding target memo' s') :
    r.failure binding x args memo s = r.failure binding x args memo' s' := by
  have hplaced : ∀ report, r.placed binding memo s report = r.placed binding memo' s' report := by
    intro report
    unfold Rule.placed
    cases ht : r.target with
    | none => rfl
    | some target => simp only [h target ht]
  unfold Rule.failure
  simp only [hplaced]

theorem lostFields_eq_lossWith {fields : NameSet}
    (h : r.lostFields binding memo s = (fields, memo', s')) :
    fields = r.lossWith binding memo s := by
  unfold Rule.lossWith
  cases hm : memo.discards with
  | none =>
    have hnone : ∀ names, memo.discards = some names → r.lossNow binding s = names := by simp [hm]
    exact (lostFields_eq_lossNow hnone h).1
  | some names =>
    simp only [Rule.lostFields, hm] at h
    cases h
    rfl

/-! ## The two layers -/

theorem discarding_cases (h : r.discarding binding report memo s = (outcome, memo', s')) :
    (outcome = .failed report ∧ r.discards = [] ∧ memo' = memo ∧ s' = s) ∨
      outcome = .discarding (r.lossWith binding memo s) report ∧ r.discards ≠ [] := by
  unfold Rule.discarding at h
  by_cases hd : r.discards = []
  · rw [hd] at h
    cases h
    exact Or.inl ⟨rfl, hd, rfl, rfl⟩
  · have hne : r.discards.isEmpty = false := by simpa using hd
    rcases hl : r.lostFields binding memo s with ⟨fields, memo₁, s₁⟩
    simp only [hne, hl] at h
    cases h
    exact Or.inr ⟨by rw [lostFields_eq_lossWith hl], hd⟩

theorem placing_cases (h : r.placing binding report memo s = (outcome, memo', s')) :
    (outcome = .failed (r.placed binding memo s report) ∧
      (r.discards = [] ∨ r.Unplaced binding memo s)) ∨
    outcome = .discarding (r.lossWith binding memo (r.labelSought binding memo s))
        (r.placed binding memo s report) ∧
      r.discards ≠ [] ∧ ¬ r.Unplaced binding memo s := by
  unfold Rule.placing at h
  unfold Rule.Unplaced Rule.placed Rule.labelSought
  cases ht : r.target with
  | none =>
    simp only [ht] at h
    rcases discarding_cases h with ⟨rfl, hd, -, -⟩ | ⟨rfl, hd⟩
    · exact Or.inl ⟨rfl, Or.inl hd⟩
    · exact Or.inr ⟨rfl, hd, by simp⟩
  | some target =>
    rcases hl : r.targetLabel binding target memo s with ⟨answer, memo₁, s₁⟩
    obtain ⟨rfl, hdiscards, -, hstate⟩ := targetLabel_eq_labelWith hl
    simp only [ht, hl] at h
    cases hlabel : r.labelWith binding target memo s with
    | error fault =>
      simp only [hlabel] at h
      cases h
      refine Or.inl ⟨?_, Or.inr ⟨target, fault, rfl, hlabel⟩⟩
      simp only [hlabel]
    | ok label =>
      simp only [hlabel] at h
      have hloss : r.lossWith binding memo₁ s₁ = r.lossWith binding memo s₁ := by
        unfold Rule.lossWith
        rw [hdiscards]
      -- the lost fields are looked for in the state that the label was found in
      rcases discarding_cases h with ⟨rfl, hd, -, -⟩ | ⟨rfl, hd⟩
      · refine Or.inl ⟨?_, Or.inl hd⟩
        simp only [hlabel]
      · refine Or.inr ⟨?_, hd, ?_⟩
        · have hsought : (if (some target).isSome && memo.label.isNone then askedOf binding s
              else s) = s₁ := hstate.symm
          simp only [hlabel, hsought, hloss]
        · rintro ⟨target', fault, htarget, hfault⟩
          cases htarget
          rw [hlabel] at hfault
          cases hfault

theorem report_of_invoke (h : r.invoke binding x args memo s = (.ok outcome, memo', s')) :
    outcome.report? = r.failure binding x args memo s := by
  unfold Rule.invoke at h
  unfold Rule.failure
  cases hc : r.check.call x args with
  | ok u =>
    simp only [hc] at h
    cases h
    rfl
  | error refusal =>
    cases refusal with
    | invalid report =>
      rcases hp : r.placing binding report memo s with ⟨outcome', memo₁, s₁⟩
      simp only [hc, hp] at h
      cases h
      rcases placing_cases hp with ⟨rfl, -⟩ | ⟨rfl, -⟩
      · rfl
      · rfl
    | breach text =>
      simp only [hc] at h
      cases h
    | deferred d =>
      simp only [hc] at h
      cases h
      rfl
    | trouble cause =>
      simp only [hc] at h
      cases h
      rfl

theorem invoke_of_invalid (hc : r.check.call x args = .error (.invalid report)) (memo : Memo)
    (s : σ) :
    ∃ outcome memo' s', r.placing binding report memo s = (outcome, memo', s') ∧
      r.invoke binding x args memo s = (.ok outcome, memo', s') := by
  rcases hp : r.placing binding report memo s with ⟨outcome, memo', s'⟩
  refine ⟨outcome, memo', s', rfl, ?_⟩
  simp only [Rule.invoke, hc, hp]

/-- What an invocation comes to, for each answer of the check. A report is put in its place with all
its findings, and fields are lost unless there are no discards or no place for the report; what is
no report goes through both layers as it is. -/
theorem invoke_keeps_findings (r : Rule ι) (binding : Option (Binding σ)) (x : ι)
    (args : Arguments) (memo : Memo) (s : σ) :
    (∀ report, r.check.call x args = .error (.invalid report) → ∃ outcome placed,
      (r.invoke binding x args memo s).1 = .ok outcome ∧ outcome.report? = some placed ∧
      placed.findings = r.placedFindings binding memo s report.findings ∧
      ((∃ fields, outcome = .discarding fields placed) ↔
        r.discards ≠ [] ∧ ¬ r.Unplaced binding memo s) ∧
      ∀ fields, outcome = .discarding fields placed →
        fields = r.lossWith binding memo (r.labelSought binding memo s)) ∧
    (∀ cause, r.check.call x args = .error (.trouble cause) →
      (r.invoke binding x args memo s).1 = .ok (.failed (.message cause.message))) ∧
    (∀ d, r.check.call x args = .error (.deferred d) →
      (r.invoke binding x args memo s).1 = .ok (.deferred d)) ∧
    (∀ text, r.check.call x args = .error (.breach text) →
      (r.invoke binding x args memo s).1 = .error (.breach (.other text))) ∧
    (r.check.call x args = .ok () → (r.invoke binding x args memo s).1 = .ok .passed) := by
  refine ⟨?_, ?_, ?_, ?_, ?_⟩
  · intro report hc
    obtain ⟨outcome, memo', s', hp, hi⟩ := invoke_of_invalid hc memo s
    refine ⟨outcome, r.placed binding memo s report, by rw [hi], ?_⟩
    rcases placing_cases hp with ⟨rfl, hfailed⟩ | ⟨rfl, hdiscards, hplaced⟩
    · refine ⟨rfl, findings_placed, ?_, nofun⟩
      constructor
      · rintro ⟨fields, hf⟩
        cases hf
      · rintro ⟨hdiscards, hplaced⟩
        exact (hfailed.elim hdiscards hplaced).elim
    · refine ⟨rfl, findings_placed, ⟨fun _ => ⟨hdiscards, hplaced⟩, fun _ => ⟨_, rfl⟩⟩, ?_⟩
      intro fields hf
      cases hf
      rfl
  · intro cause hc
    simp only [Rule.invoke, hc]
  · intro d hc
    simp only [Rule.invoke, hc]
  · intro text hc
    simp only [Rule.invoke, hc]
  · intro hc
    simp only [Rule.invoke, hc]

end

end Vetting
