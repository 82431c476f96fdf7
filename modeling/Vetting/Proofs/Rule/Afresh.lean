import Mathlib.Logic.Function.Iterate
import Vetting.Proofs.Rule.Invocation

/-!
# Invocations without memory

An invocation could ask the source of shapes each time for all that it needs.
`invokeNow` is what it would come to then, from the answer that the source gives
about the owner at the moment. While what the rule remembers agrees with that
answer, an invocation comes to the same (`invoke_eq_invokeNow`), and asks only
for what the rule does not remember: once for the label of the target, once for
the fields that are lost.
-/

namespace Vetting

section
variable {σ ι : Type}

def Binding.shape (b : Binding σ) (s : σ) : Except Fault Shape :=
  (b.shapes.ask b.owner .reading s).1

def Binding.asked (b : Binding σ) (s : σ) : σ := (b.shapes.ask b.owner .reading s).2

theorem Binding.ask_eq (b : Binding σ) (s : σ) :
    b.shapes.ask b.owner .reading s = (b.shape s, b.asked s) := rfl

/-- A shape that is told in the one state is told in the other. -/
def Binding.Keeps (b : Binding σ) (s s' : σ) : Prop :=
  ∀ shape, b.shape s = .ok shape → b.shape s' = .ok shape

def askedOf (binding : Option (Binding σ)) (s : σ) : σ := (binding.map (·.asked s)).getD s

def Known (binding : Option (Binding σ)) (s : σ) : Prop :=
  ∃ b shape, binding = some b ∧ b.shape s = .ok shape

namespace Rule

def labelNow (r : Rule ι) (binding : Option (Binding σ)) (target : FieldRef) (s : σ) :
    Except Fault String :=
  match binding with
  | none => .error (.conflict (.unbound r.name))
  | some b => match b.shape s with
    | .error fault => .error fault
    | .ok shape => match shape.resolve? target.name with
      | none => .error (.unknownField b.owner target.name)
      | some f => .ok f.label

def lossNow (r : Rule ι) (binding : Option (Binding σ)) (s : σ) : NameSet :=
  match binding with
  | none => .ofList (r.discards.map FieldRef.name)
  | some b => match b.shape s with
    | .error _ => .ofList (r.discards.map FieldRef.name)
    | .ok shape => .ofList (r.discards.map fun d => shape.identify d.name)

def discardingNow (r : Rule ι) (binding : Option (Binding σ)) (report : Report) (s : σ) : Outcome :=
  if r.discards.isEmpty then .failed report else .discarding (r.lossNow binding s) report

def placingNow (r : Rule ι) (binding : Option (Binding σ)) (report : Report) (s : σ) : Outcome :=
  match r.target with
  | none => r.discardingNow binding report s
  | some target => match r.labelNow binding target s with
    | .error fault => .failed ((Report.message fault.message).merge report)
    | .ok label => r.discardingNow binding (report.under label) s

/-- What the invocation comes to by what the source answers now. -/
def invokeNow (r : Rule ι) (binding : Option (Binding σ)) (x : ι) (args : Arguments) (s : σ) :
    Except Fault Outcome :=
  match r.check.call x args with
  | .ok () => .ok .passed
  | .error (.deferred d) => .ok (.deferred d)
  | .error (.breach text) => .error (.breach (.other text))
  | .error (.trouble cause) => .ok (.failed (.message cause.message))
  | .error (.invalid report) => .ok (r.placingNow binding report s)

def WantsLabel (r : Rule ι) (binding : Option (Binding σ)) (x : ι) (args : Arguments) : Prop :=
  binding.isSome = true ∧ r.target.isSome = true ∧
    ∃ report, r.check.call x args = .error (.invalid report)

def WantsLoss (r : Rule ι) (binding : Option (Binding σ)) (x : ι) (args : Arguments) (s : σ) :
    Prop :=
  binding.isSome = true ∧ ∃ fields report,
    r.invokeNow binding x args s = .ok (.discarding fields report)

/-- A report is placed under the target, and this is its label. -/
def Finds (r : Rule ι) (binding : Option (Binding σ)) (x : ι) (args : Arguments) (s : σ)
    (label : String) : Prop :=
  ∃ report target, r.check.call x args = .error (.invalid report) ∧ r.target = some target ∧
    r.labelNow binding target s = .ok label

/-- These fields are lost, and they are known by the shape of the owner. -/
def Settles (r : Rule ι) (binding : Option (Binding σ)) (x : ι) (args : Arguments) (s : σ)
    (fields : NameSet) : Prop :=
  Known binding s ∧ ∃ report, r.invokeNow binding x args s = .ok (.discarding fields report)

end Rule

/-- An invocation looks `n` times for the label and `m` times for the lost fields: each once where
it is wanted, unless it is had already. -/
structure Lookups (r : Rule ι) (binding : Option (Binding σ)) (x : ι) (args : Arguments) (s : σ)
    (labelHad lossHad : Prop) (n m : Nat) : Prop where
  label_le : n ≤ 1
  loss_le : m ≤ 1
  label_iff : n = 1 ↔ r.WantsLabel binding x args ∧ ¬ labelHad
  loss_iff : m = 1 ↔ r.WantsLoss binding x args s ∧ ¬ lossHad

theorem Lookups.congr {r : Rule ι} {binding : Option (Binding σ)} {x : ι} {args : Arguments} {s : σ}
    {a a' b b' : Prop} {n m : Nat} (h : Lookups r binding x args s a b n m) (ha : a ↔ a')
    (hb : b ↔ b') : Lookups r binding x args s a' b' n m :=
  propext ha ▸ propext hb ▸ h

/-- What is remembered is what would be found now. -/
structure Memo.Agrees (memo : Memo) (r : Rule ι) (binding : Option (Binding σ)) (s : σ) : Prop where
  label : ∀ label target, memo.label = some label → r.target = some target →
    r.labelNow binding target s = .ok label
  loss : ∀ fields, memo.discards = some fields → r.lossNow binding s = fields

variable {r : Rule ι} {binding : Option (Binding σ)} {x : ι} {args : Arguments}
  {memo memo' : Memo} {s s' : σ}

/-! ## Answers that stay -/

theorem known_of_labelNow {target : FieldRef} {label : String}
    (h : r.labelNow binding target s = .ok label) : Known binding s := by
  unfold Rule.labelNow at h
  cases binding with
  | none => cases h
  | some b =>
    cases hb : b.shape s with
    | error fault =>
      simp only [hb] at h
      cases h
    | ok shape => exact ⟨b, shape, rfl, hb⟩

theorem now_of_keeps (hkeeps : ∀ b, binding = some b → b.Keeps s s') (hknown : Known binding s) :
    Known binding s' ∧ r.lossNow binding s' = r.lossNow binding s ∧
      ∀ target, r.labelNow binding target s' = r.labelNow binding target s := by
  obtain ⟨b, shape, rfl, hb⟩ := hknown
  have hb' := hkeeps b rfl shape hb
  refine ⟨⟨b, shape, rfl, hb'⟩, ?_, ?_⟩
  · unfold Rule.lossNow
    simp only [hb, hb']
  · intro target
    unfold Rule.labelNow
    simp only [hb, hb']

theorem lossNow_of_discarding {fields : NameSet} {report : Report}
    (h : r.invokeNow binding x args s = .ok (.discarding fields report)) :
    r.lossNow binding s = fields := by
  have hnow : ∀ report', r.discardingNow binding report' s = .discarding fields report →
      r.lossNow binding s = fields := by
    intro report' hd
    unfold Rule.discardingNow at hd
    split at hd <;> cases hd
    rfl
  unfold Rule.invokeNow at h
  cases hc : r.check.call x args with
  | ok u =>
    rw [hc] at h
    cases h
  | error refusal =>
    cases refusal with
    | invalid report' =>
      rw [hc] at h
      have hp := Except.ok.inj h
      unfold Rule.placingNow at hp
      split at hp
      · exact hnow report' hp
      · split at hp
        · cases hp
        · exact hnow _ hp
    | _ =>
      rw [hc] at h
      cases h

/-! ## Lookups -/

theorem targetLabel_eq_labelNow {target : FieldRef} {answer : Except Fault String}
    (hmemo : ∀ label, memo.label = some label → r.labelNow binding target s = .ok label)
    (h : r.targetLabel binding target memo s = (answer, memo', s')) :
    answer = r.labelNow binding target s ∧ memo'.discards = memo.discards ∧
      (∀ label, memo'.label = some label ↔ r.labelNow binding target s = .ok label) ∧
      s' = if memo.label.isSome = true then s else askedOf binding s := by
  unfold Rule.targetLabel at h
  cases hm : memo.label with
  | some label =>
    have hnow := hmemo label hm
    simp only [hm] at h
    cases h
    simp [hnow, hm]
  | none =>
    unfold Rule.labelNow
    cases binding with
    | none =>
      simp only [hm] at h
      cases h
      simp [hm, askedOf]
    | some b =>
      simp only [hm, b.ask_eq s] at h
      cases hb : b.shape s with
      | error fault =>
        simp only [hb] at h
        cases h
        simp [hb, hm, askedOf]
      | ok shape =>
        cases hf : shape.resolve? target.name with
        | none =>
          simp only [hb, hf] at h
          cases h
          simp [hb, hf, hm, askedOf]
        | some f =>
          simp only [hb, hf] at h
          cases h
          simp [hb, hf, askedOf]

theorem lostFields_eq_lossNow {fields : NameSet}
    (hmemo : ∀ fields, memo.discards = some fields → r.lossNow binding s = fields)
    (h : r.lostFields binding memo s = (fields, memo', s')) :
    fields = r.lossNow binding s ∧ memo'.label = memo.label ∧
      (∀ names, memo'.discards = some names ↔
        memo.discards = some names ∨ Known binding s ∧ r.lossNow binding s = names) ∧
      s' = if memo.discards.isSome = true then s else askedOf binding s := by
  unfold Rule.lostFields at h
  cases hm : memo.discards with
  | some names =>
    have hnow := hmemo names hm
    simp only [hm] at h
    cases h
    simp [hnow, hm]
  | none =>
    unfold Rule.lossNow
    cases binding with
    | none =>
      simp only [hm] at h
      cases h
      simp [hm, askedOf, Known]
    | some b =>
      simp only [hm, b.ask_eq s] at h
      cases hb : b.shape s with
      | error fault =>
        simp only [hb] at h
        cases h
        simp [hb, hm, askedOf, Known]
      | ok shape =>
        simp only [hb] at h
        cases h
        simp [hb, askedOf, Known, Function.comp_def]

theorem exists_lookup {p : Prop} [Decidable p] (h : s' = if p then s else askedOf binding s) :
    ∃ n, n ≤ 1 ∧ (n = 1 ↔ binding.isSome = true ∧ ¬ p) ∧ s' = (askedOf binding)^[n] s := by
  by_cases hp : p
  · refine ⟨0, by omega, by simp [hp], ?_⟩
    rw [h, if_pos hp]
    rfl
  · rw [if_neg hp] at h
    cases binding with
    | none => exact ⟨0, by omega, by simp, h⟩
    | some b => exact ⟨1, by omega, by simp [hp], h⟩

/-! ## Losing fields -/

theorem discarding_eq_discardingNow {report : Report} {outcome : Outcome}
    (hmemo : ∀ fields, memo.discards = some fields → r.lossNow binding s = fields)
    (h : r.discarding binding report memo s = (outcome, memo', s')) :
    outcome = r.discardingNow binding report s ∧ memo'.label = memo.label ∧
      (∀ names, memo'.discards = some names ↔ memo.discards = some names ∨
        Known binding s ∧ ∃ report, outcome = .discarding names report) ∧
      ∃ m, m ≤ 1 ∧ s' = (askedOf binding)^[m] s ∧ (m = 1 ↔ (binding.isSome = true ∧
        ∃ fields report, outcome = .discarding fields report) ∧ ¬ memo.discards.isSome = true) := by
  unfold Rule.discarding at h
  unfold Rule.discardingNow
  by_cases he : r.discards.isEmpty = true
  · rw [if_pos he] at h
    cases h
    refine ⟨by rw [if_pos he], rfl, by simp, 0, by omega, rfl, by simp⟩
  · rcases hl : r.lostFields binding memo s with ⟨fields, memo₁, s₁⟩
    rw [if_neg he, hl] at h
    cases h
    obtain ⟨rfl, hlabel, hnames, hstate⟩ := lostFields_eq_lossNow hmemo hl
    obtain ⟨m, hle, hm, hs⟩ := exists_lookup hstate
    refine ⟨by rw [if_neg he], hlabel, ?_, m, hle, hs, by simpa using hm⟩
    intro names
    rw [hnames names]
    simp

theorem discardingNow_congr (h : r.lossNow binding s' = r.lossNow binding s) (report : Report) :
    r.discardingNow binding report s' = r.discardingNow binding report s := by
  unfold Rule.discardingNow
  rw [h]

theorem keeps_of_lookup {p : Prop} [Decidable p]
    (hkeeps : ∀ b, binding = some b → b.Keeps s (b.asked s)) :
    ∀ b, binding = some b → b.Keeps s (if p then s else askedOf binding s) := by
  rintro b rfl
  by_cases hp : p
  · rw [if_pos hp]
    exact fun shape h => h
  · rw [if_neg hp]
    exact hkeeps b rfl

/-! ## Placing a report -/

/-- The outcome is what it would be now, what is found on the way is remembered, and it is looked for
at most once, and not if it was had before. -/
structure PlacedNow (r : Rule ι) (binding : Option (Binding σ)) (report : Report)
    (memo memo' : Memo) (s s' : σ) (outcome : Outcome) : Prop where
  outcome_eq : outcome = r.placingNow binding report s
  label_iff : ∀ label, memo'.label = some label ↔ memo.label = some label ∨
    ∃ target, r.target = some target ∧ r.labelNow binding target s = .ok label
  discards_iff : ∀ names, memo'.discards = some names ↔ memo.discards = some names ∨
    Known binding s ∧ ∃ report, outcome = .discarding names report
  lookups : ∃ n m, n ≤ 1 ∧ m ≤ 1 ∧ s' = (askedOf binding)^[n + m] s ∧
    (n = 1 ↔ (binding.isSome = true ∧ r.target.isSome = true) ∧ ¬ memo.label.isSome = true) ∧
    (m = 1 ↔ (binding.isSome = true ∧ ∃ fields report, outcome = .discarding fields report) ∧
      ¬ memo.discards.isSome = true)

/-- The label of the target was looked for, unless it was had. -/
structure Sought (r : Rule ι) (binding : Option (Binding σ)) (target : FieldRef)
    (memo memo' : Memo) (s s' : σ) : Prop where
  label_iff : ∀ label, memo'.label = some label ↔ r.labelNow binding target s = .ok label
  discards_eq : memo'.discards = memo.discards
  state_eq : s' = if memo.label.isSome = true then s else askedOf binding s

section
variable {report : Report} {outcome : Outcome} {target : FieldRef} {memo₁ : Memo} {s₁ : σ}

theorem Sought.remembered_iff (h : Sought r binding target memo memo₁ s s₁)
    (hmemo : memo.Agrees r binding s) (ht : r.target = some target) (label : String) :
    memo₁.label = some label ↔ memo.label = some label ∨
      ∃ target, r.target = some target ∧ r.labelNow binding target s = .ok label := by
  rw [h.label_iff label]
  constructor
  · intro hnow
    exact Or.inr ⟨target, ht, hnow⟩
  · rintro (hold | ⟨target', htarget, hnow⟩)
    · exact hmemo.label label target hold ht
    · cases ht.symm.trans htarget
      exact hnow

theorem placedNow_of_no_target (hmemo : memo.Agrees r binding s) (ht : r.target = none)
    (h : r.discarding binding report memo s = (outcome, memo', s')) :
    PlacedNow r binding report memo memo' s s' outcome := by
  obtain ⟨hout, hlabel, hnames, m, hle, hs, hm⟩ := discarding_eq_discardingNow hmemo.loss h
  refine ⟨?_, by simp [hlabel, ht], hnames, 0, m, by omega, hle, ?_, by simp [ht], hm⟩
  · simp only [Rule.placingNow, ht]
    exact hout
  · rw [Nat.zero_add, hs]

theorem placedNow_of_no_label {fault : Fault} (hmemo : memo.Agrees r binding s)
    (ht : r.target = some target) (hsought : Sought r binding target memo memo₁ s s₁)
    (hnow : r.labelNow binding target s = .error fault) :
    PlacedNow r binding report memo memo₁ s s₁
      (.failed ((Report.message fault.message).merge report)) := by
  obtain ⟨n, hle, hn, hs⟩ := exists_lookup hsought.state_eq
  refine ⟨?_, hsought.remembered_iff hmemo ht, by simp [hsought.discards_eq], n, 0, hle, by omega,
    hs, by simpa [ht] using hn, by simp⟩
  simp only [Rule.placingNow, ht, hnow]

theorem placedNow_of_label {label : String} (hmemo : memo.Agrees r binding s)
    (hkeeps : ∀ b, binding = some b → b.Keeps s (b.asked s)) (ht : r.target = some target)
    (hsought : Sought r binding target memo memo₁ s s₁)
    (hnow : r.labelNow binding target s = .ok label)
    (h : r.discarding binding (report.under label) memo₁ s₁ = (outcome, memo', s')) :
    PlacedNow r binding report memo memo' s s' outcome := by
  obtain ⟨n, hle, hn, hs⟩ := exists_lookup hsought.state_eq
  -- the source still tells the shape by which the label was found
  have hkept : ∀ b, binding = some b → b.Keeps s s₁ := by
    rw [hsought.state_eq]
    exact keeps_of_lookup hkeeps
  obtain ⟨hknown, hloss, -⟩ := now_of_keeps (r := r) hkept (known_of_labelNow hnow)
  have hmemo₁ : ∀ fields, memo₁.discards = some fields → r.lossNow binding s₁ = fields := by
    intro fields hfields
    rw [hloss]
    exact hmemo.loss fields (hsought.discards_eq ▸ hfields)
  obtain ⟨hout, hsame, hnames, m, hle', hs', hm⟩ := discarding_eq_discardingNow hmemo₁ h
  rw [discardingNow_congr hloss] at hout
  rw [hsought.discards_eq] at hnames hm
  refine ⟨?_, fun label => ?_, fun names => ?_, n, m, hle, hle', ?_, by simpa [ht] using hn, hm⟩
  · simp only [Rule.placingNow, ht, hnow]
    exact hout
  · rw [hsame, hsought.remembered_iff hmemo ht]
  · rw [hnames names]
    simp [hknown, known_of_labelNow hnow]
  · rw [hs', hs, Nat.add_comm, Function.iterate_add_apply]

theorem placing_eq_placingNow (hmemo : memo.Agrees r binding s)
    (hkeeps : (∃ target label, r.target = some target ∧ r.labelNow binding target s = .ok label) →
      ∀ b, binding = some b → b.Keeps s (b.asked s))
    (h : r.placing binding report memo s = (outcome, memo', s')) :
    PlacedNow r binding report memo memo' s s' outcome := by
  unfold Rule.placing at h
  cases ht : r.target with
  | none =>
    simp only [ht] at h
    exact placedNow_of_no_target hmemo ht h
  | some target =>
    rcases hl : r.targetLabel binding target memo s with ⟨answer, memo₁, s₁⟩
    obtain ⟨rfl, hdiscards, hlabel, hstate⟩ :=
      targetLabel_eq_labelNow (fun label hlabel => hmemo.label label target hlabel ht) hl
    have hsought : Sought r binding target memo memo₁ s s₁ := ⟨hlabel, hdiscards, hstate⟩
    simp only [ht, hl] at h
    cases hnow : r.labelNow binding target s with
    | error fault =>
      simp only [hnow] at h
      cases h
      exact placedNow_of_no_label hmemo ht hsought hnow
    | ok label =>
      simp only [hnow] at h
      exact placedNow_of_label hmemo (hkeeps ⟨target, label, ht, hnow⟩) ht hsought hnow h

end

/-! ## One invocation -/

theorem invoke_of_not_invalid {answer : Except Fault Outcome}
    (hc : ¬ ∃ report, r.check.call x args = .error (.invalid report))
    (h : r.invoke binding x args memo s = (answer, memo', s')) :
    answer = r.invokeNow binding x args s ∧ memo' = memo ∧ s' = s ∧
      ∀ fields report, r.invokeNow binding x args s ≠ .ok (.discarding fields report) := by
  unfold Rule.invoke at h
  unfold Rule.invokeNow
  cases hcall : r.check.call x args with
  | ok u =>
    simp only [hcall] at h
    cases h
    simp
  | error refusal =>
    cases refusal with
    | invalid report => exact absurd ⟨report, hcall⟩ hc
    | _ =>
      simp only [hcall] at h
      cases h
      simp

/-- While what is remembered agrees with the source, an invocation comes to what it would come to
without, and looks only for what is not remembered. -/
theorem invoke_eq_invokeNow {answer : Except Fault Outcome} (hmemo : memo.Agrees r binding s)
    (hkeeps : (∃ label, r.Finds binding x args s label) →
      ∀ b, binding = some b → b.Keeps s (b.asked s))
    (h : r.invoke binding x args memo s = (answer, memo', s')) :
    answer = r.invokeNow binding x args s ∧
      (∀ label, memo'.label = some label ↔
        memo.label = some label ∨ r.Finds binding x args s label) ∧
      (∀ fields, memo'.discards = some fields ↔
        memo.discards = some fields ∨ r.Settles binding x args s fields) ∧
      ∃ n m, s' = (askedOf binding)^[n + m] s ∧ Lookups r binding x args s
        (memo.label.isSome = true) (memo.discards.isSome = true) n m := by
  unfold Rule.Finds at hkeeps ⊢
  unfold Rule.Settles
  by_cases hc : ∃ report, r.check.call x args = .error (.invalid report)
  · obtain ⟨report, hc⟩ := hc
    have hnow : r.invokeNow binding x args s = .ok (r.placingNow binding report s) := by
      simp only [Rule.invokeNow, hc]
    rcases hp : r.placing binding report memo s with ⟨outcome, memo₁, s₁⟩
    simp only [Rule.invoke, hc, hp] at h
    cases h
    obtain ⟨rfl, hlabel, hnames, n, m, hle, hle', hs, hn, hm⟩ :=
      placing_eq_placingNow hmemo (fun ⟨target, label, ht, hl⟩ =>
        hkeeps ⟨label, report, target, hc, ht, hl⟩) hp
    refine ⟨hnow.symm, ?_, ?_, n, m, hs, hle, hle', ?_, ?_⟩
    · intro label
      simpa [hc] using hlabel label
    · intro fields
      simpa [hnow] using hnames fields
    · simpa [Rule.WantsLabel, hc] using hn
    · simpa [Rule.WantsLoss, hnow] using hm
  · obtain ⟨rfl, rfl, rfl, hnow⟩ := invoke_of_not_invalid hc h
    rw [not_exists] at hc
    refine ⟨rfl, by simp [hc], by simp [hnow], 0, 0, rfl, by omega, by omega, ?_, ?_⟩
    · simp [Rule.WantsLabel, hc]
    · simp [Rule.WantsLoss, hnow]

end

end Vetting
