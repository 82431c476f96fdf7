import Vetting.Proofs.Report.Merge
import Vetting.Rule.Invocation

/-!
# What comes of a check

An invocation that comes to an outcome does so in one of a few ways, by what the
check answered (`invoke_cases`). A report by the check is put in its place, and
there it is bare, or under a label, or behind the fault that left it without
one (`Dressed`); only the third adds a message.
-/

namespace Vetting

namespace Outcome

def report? : Outcome → Option Report
  | failed report => some report
  | discarding _ report => some report
  | _ => none

def lost : Outcome → NameSet
  | discarding fields _ => fields
  | _ => ∅

def isDeferred : Outcome → Bool
  | deferred _ => true
  | _ => false

end Outcome

/-- How an outcome carries the report that the check gave. -/
inductive Dressed {ι : Type} (r : Rule ι) (report : Report) : Outcome → Prop
  | bare {outcome : Outcome} : r.target = none → outcome.report? = some report →
      Dressed r report outcome
  | labelled {outcome : Outcome} (label : String) : r.target.isSome = true →
      outcome.report? = some (report.under label) → Dressed r report outcome
  | unplaced (fault : Fault) : r.target.isSome = true →
      Dressed r report (.failed ((Report.message fault.message).merge report))

section
variable {σ ι : Type} {r : Rule ι} {binding : Option (Binding σ)} {x : ι} {args : Arguments}
  {memo memo' : Memo} {s s' : σ} {outcome : Outcome}

theorem report_of_discarding {report : Report}
    (h : r.discarding binding report memo s = (outcome, memo', s')) :
    outcome.report? = some report := by
  unfold Rule.discarding at h
  split at h <;> cases h <;> rfl

theorem dressed_of_placing {report : Report}
    (h : r.placing binding report memo s = (outcome, memo', s')) : Dressed r report outcome := by
  unfold Rule.placing at h
  split at h
  · rename_i ht
    exact .bare ht (report_of_discarding h)
  · rename_i target ht
    have hsome : r.target.isSome = true := by rw [ht]; rfl
    split at h
    · rename_i fault _ _ _
      cases h
      exact .unplaced fault hsome
    · rename_i label _ _ _
      exact .labelled label hsome (report_of_discarding h)

theorem invoke_cases (h : r.invoke binding x args memo s = (.ok outcome, memo', s')) :
    (r.check.call x args = .ok () ∧ outcome = .passed) ∨
      (∃ d, r.check.call x args = .error (.deferred d) ∧ outcome = .deferred d) ∨
      (∃ cause, r.check.call x args = .error (.trouble cause) ∧
        outcome = .failed (.message cause.message)) ∨
      ∃ report, r.check.call x args = .error (.invalid report) ∧ Dressed r report outcome := by
  unfold Rule.invoke at h
  split at h
  · rename_i hc
    cases h
    exact Or.inl ⟨hc, rfl⟩
  · rename_i d hc
    cases h
    exact Or.inr (Or.inl ⟨d, hc, rfl⟩)
  · cases h
  · rename_i cause hc
    cases h
    exact Or.inr (Or.inr (Or.inl ⟨cause, hc, rfl⟩))
  · rename_i report hc
    cases h
    exact Or.inr (Or.inr (Or.inr ⟨report, hc, dressed_of_placing rfl⟩))

theorem invoke_error {fault : Fault}
    (h : r.invoke binding x args memo s = (.error fault, memo', s')) :
    fault.isInvalid = false := by
  unfold Rule.invoke at h
  split at h <;> cases h
  rfl

/-! ## What is remembered

The label of the target and the lost fields are remembered apart from each
other: an invocation that comes to no loss leaves the lost fields as they were.
-/

/-- Answering leaves the state as it is. -/
def ShapeSource.Still (source : ShapeSource σ) : Prop := ∀ ty d s, (source.ask ty d s).2 = s

theorem targetLabel_remembers {target : FieldRef} {label : Except Fault String}
    (hstill : ∀ b, binding = some b → b.shapes.Still)
    (h : r.targetLabel binding target memo s = (label, memo', s')) :
    memo'.discards = memo.discards ∧ s' = s := by
  unfold Rule.targetLabel at h
  split at h
  · cases h
    exact ⟨rfl, rfl⟩
  · split at h
    · cases h
      exact ⟨rfl, rfl⟩
    · rename_i b
      have hs := hstill b rfl b.owner .reading s
      split at h
      · rename_i hask
        cases h
        rw [hask] at hs
        exact ⟨rfl, hs⟩
      · rename_i hask
        rw [hask] at hs
        split at h <;> cases h <;> exact ⟨rfl, hs⟩

theorem lostFields_still {fields : NameSet} (hstill : ∀ b, binding = some b → b.shapes.Still)
    (h : r.lostFields binding memo s = (fields, memo', s')) : s' = s := by
  unfold Rule.lostFields at h
  split at h
  · cases h
    rfl
  · split at h
    · cases h
      rfl
    · rename_i b
      have hs := hstill b rfl b.owner .reading s
      split at h <;> (rename_i hask; rw [hask] at hs; cases h; exact hs)

def Rule.lostAfresh (r : Rule ι) (binding : Option (Binding σ)) (s : σ) : NameSet :=
  (r.lostFields binding ∅ s).1

def Rule.settles (r : Rule ι) (binding : Option (Binding σ)) (s : σ) : Bool :=
  (r.lostFields binding ∅ s).2.1.discards.isSome

theorem lostFields_eq {fields : NameSet} (h : r.lostFields binding memo s = (fields, memo', s')) :
    fields = memo.discards.getD (r.lostAfresh binding s) ∧
      memo'.discards = if (memo.discards.isSome || r.settles binding s) = true then some fields
        else none := by
  unfold Rule.lostAfresh Rule.settles
  unfold Rule.lostFields at h ⊢
  cases hm : memo.discards with
  | some names =>
    simp only [hm] at h
    cases h
    simp [hm]
  | none =>
    simp only [hm] at h
    cases binding with
    | none =>
      cases h
      exact ⟨rfl, hm⟩
    | some b =>
      rcases hask : b.shapes.ask b.owner .reading s with ⟨answer, s₁⟩
      simp only [hask] at h
      cases answer with
      | error fault =>
        cases h
        simp only [hask]
        exact ⟨rfl, hm⟩
      | ok shape =>
        cases h
        simp only [hask]
        exact ⟨rfl, rfl⟩

/-- The invocation has lost the fields that the rule loses with this memory, or it has lost none and
remembers none. -/
def Remembers (r : Rule ι) (binding : Option (Binding σ)) (memo memo' : Memo) (s : σ)
    (outcome : Outcome) : Prop :=
  (∃ fields report memo₁, outcome = .discarding fields report ∧ memo₁.discards = memo.discards ∧
    r.lostFields binding memo₁ s = (fields, memo', s)) ∨
  (∀ fields report, outcome ≠ .discarding fields report) ∧ memo'.discards = memo.discards

theorem remembers_of_discarding {report : Report} {memo₁ : Memo}
    (hstill : ∀ b, binding = some b → b.shapes.Still) (hmemo : memo₁.discards = memo.discards)
    (h : r.discarding binding report memo₁ s = (outcome, memo', s')) :
    s' = s ∧ Remembers r binding memo memo' s outcome := by
  unfold Rule.discarding at h
  split at h
  · cases h
    exact ⟨rfl, Or.inr ⟨nofun, hmemo⟩⟩
  · rcases hl : r.lostFields binding memo₁ s with ⟨fields, memo₂, s₂⟩
    rw [hl] at h
    cases h
    obtain rfl := lostFields_still hstill hl
    exact ⟨rfl, Or.inl ⟨fields, report, memo₁, rfl, hmemo, hl⟩⟩

theorem remembers_of_placing {report : Report}
    (hstill : ∀ b, binding = some b → b.shapes.Still)
    (h : r.placing binding report memo s = (outcome, memo', s')) :
    s' = s ∧ Remembers r binding memo memo' s outcome := by
  unfold Rule.placing at h
  cases ht : r.target with
  | none =>
    simp only [ht] at h
    exact remembers_of_discarding hstill rfl h
  | some target =>
    rcases hl : r.targetLabel binding target memo s with ⟨label, memo₁, s₁⟩
    obtain ⟨hmemo, rfl⟩ := targetLabel_remembers hstill hl
    simp only [ht, hl] at h
    cases label with
    | error fault =>
      cases h
      exact ⟨rfl, Or.inr ⟨nofun, hmemo⟩⟩
    | ok label => exact remembers_of_discarding hstill hmemo h

theorem invoke_remembers {answer : Except Fault Outcome}
    (hstill : ∀ b, binding = some b → b.shapes.Still)
    (h : r.invoke binding x args memo s = (answer, memo', s')) :
    s' = s ∧ ((∃ outcome, answer = .ok outcome ∧ Remembers r binding memo memo' s outcome) ∨
      (∃ fault, answer = .error fault) ∧ memo' = memo) := by
  have hnone : ∀ {o : Outcome}, (∀ fields report, o ≠ .discarding fields report) →
      ∃ outcome, Except.ok (ε := Fault) o = .ok outcome ∧ Remembers r binding memo memo s outcome :=
    fun ho => ⟨_, rfl, Or.inr ⟨ho, rfl⟩⟩
  unfold Rule.invoke at h
  split at h
  · cases h
    exact ⟨rfl, Or.inl (hnone nofun)⟩
  · cases h
    exact ⟨rfl, Or.inl (hnone nofun)⟩
  · cases h
    exact ⟨rfl, Or.inr ⟨⟨_, rfl⟩, rfl⟩⟩
  · cases h
    exact ⟨rfl, Or.inl (hnone nofun)⟩
  · cases h
    obtain ⟨hs, hr⟩ := remembers_of_placing hstill rfl
    exact ⟨hs, Or.inl ⟨_, rfl, hr⟩⟩

end

end Vetting
