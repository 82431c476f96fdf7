import Vetting.Proofs.Validation.Course

/-!
# Silent failures

A check may refuse an object and say nothing: its report has no message
anywhere. Such a failure counts in two ways that do not fit together. It loses
the fields that the rule discards, though a report with nothing at its root is
no failure in the end, so a validation can end well with rules that it skipped.
And under the label of a target it is a branch, so a validation can end with a
report that has no findings. Here both are told exactly: which successful
validations have skipped a rule, and which reports have no findings.
-/

namespace Vetting

section
variable {σ ι : Type} {bindings : Bindings σ} {x : ι} {args : Option Arguments}
  {line : List (Posting ι)} {memos : Memos} {s : σ} {turns : List (Turn ι)}

/-! ## Fields that are lost in silence -/

theorem calls_eq_iff (turns : List (Turn ι)) :
    (turns.filterMap Turn.call?).map Call.rule = turns.map (fun t => t.posting.id) ↔
      ∀ t ∈ turns, t.isRun = true := by
  induction turns with
  | nil => simp
  | cons t turns ih =>
    rw [List.forall_mem_cons, ← ih]
    cases t with
    | ran p given outcome => simp [Turn.call?, Turn.isRun, Turn.posting]
    | skipped p =>
      constructor
      · intro h
        -- there are fewer calls than rules
        have hlen := congrArg List.length h
        rw [List.length_map, List.length_map, List.length_cons] at hlen
        have hle : ((Turn.skipped p :: turns).filterMap Turn.call?).length ≤ turns.length :=
          List.length_filterMap_le Turn.call? turns
        omega
      · intro h
        cases h.1

/-- Some rule without a target refused the object with nothing to say, and lost a field that a
later rule depends on. -/
def LostInSilence (bindings : Bindings σ) (x : ι) (turns : List (Turn ι)) : Prop :=
  ∃ before p given fields after,
    turns = before ++ .ran p given (.discarding fields ∅) :: after ∧
    p.rule.target = none ∧ p.rule.check.call x given = .error (.invalid ∅) ∧
    ∃ t ∈ after, (bindings.dependencies t.posting.id).meets fields = true

theorem silent_of_discarding_empty {p : Posting ι} {given : Arguments} {fields : NameSet}
    (ht : TurnsOf bindings x args line memos s turns)
    (h : Turn.ran p given (.discarding fields ∅) ∈ turns) :
    p.rule.target = none ∧ p.rule.check.call x given = .error (.invalid ∅) := by
  obtain ⟨_, _, _, _, _, _, hi⟩ := invoked_of_course ht.course h
  rcases invoke_cases hi with ⟨_, ho⟩ | ⟨_, _, ho⟩ | ⟨_, _, ho⟩ | ⟨report, hc, hd⟩
  · cases ho
  · cases ho
  · cases ho
  · cases hd with
    | bare htarget hr =>
      cases hr
      exact ⟨htarget, hc⟩
    | labelled label _ hr => exact absurd (Option.some.inj hr).symm (report.under_ne_empty label)

theorem discarding_of_meets {t : Turn ι} {names : NameSet} (h : names.meets t.lost = true) :
    ∃ p given report, t = .ran p given (.discarding t.lost report) := by
  have hnone : names.meets ∅ ≠ true := by simp
  cases t with
  | skipped p => exact absurd h hnone
  | ran p given outcome =>
    cases outcome with
    | discarding fields report => exact ⟨p, given, report, rfl⟩
    | _ => exact absurd h hnone

theorem skipped_iff_lostInSilence (ht : TurnsOf bindings x args line memos s turns)
    (hempty : ∀ r ∈ Turn.reports turns, r = ∅) :
    (∃ t ∈ turns, t.isRun = false) ↔ LostInSilence bindings x turns := by
  rw [skipped_iff ht]
  constructor
  · rintro ⟨before, u, after, hturns, t, hafter, hmeets⟩
    have hu : u ∈ turns := by rw [hturns]; simp
    obtain ⟨p, given, report, hran⟩ := discarding_of_meets hmeets
    have hr : report = ∅ := hempty report (Turn.mem_reports.2 ⟨u, hu, by rw [hran]; rfl⟩)
    subst hr
    obtain ⟨htarget, hc⟩ := silent_of_discarding_empty ht (hran ▸ hu)
    exact ⟨before, p, given, u.lost, after, hran ▸ hturns, htarget, hc, t, hafter, hmeets⟩
  · rintro ⟨before, p, given, fields, after, hturns, _, _, t, hafter, hmeets⟩
    exact ⟨before, _, after, hturns, t, hafter, hmeets⟩

/-- A validation that ends well has called every rule, unless some rule lost fields in silence. -/
theorem all_called_iff_of_ok (h : (validate bindings x args line memos s).result = .ok ()) :
    ∃ turns, TurnsOf bindings x args line memos s turns ∧
      ((validate bindings x args line memos s).calls.map Call.rule = line.map Posting.id ↔
        ¬ LostInSilence bindings x turns) := by
  obtain ⟨turns, ht, hempty⟩ := turnsOf_of_ok h
  refine ⟨turns, ht, ?_⟩
  have hids : line.map Posting.id = turns.map (fun t => t.posting.id) := by
    rw [← ht.postings, List.map_map]; rfl
  rw [ht.calls, hids, calls_eq_iff, ← skipped_iff_lostInSilence ht hempty]
  simp

def quiet (target : Option FieldRef) (discards : List FieldRef) : Posting Unit where
  id := 0
  rule := {
    name := "quiet", params := ∅, reads := ∅, signature := .method
    check := .returning fun _ _ => .error (.invalid ∅)
    target, discards, owner := none }

def outspoken : Posting Unit where
  id := 1
  rule := {
    name := "outspoken", params := ∅, reads := .ofList ["f"], signature := .method
    check := .returning fun _ _ => .error (.because "f is broken")
    target := none, discards := [], owner := none }

def outspokenBound : Bindings Unit := Table.set ∅ 1 ⟨"T", .ofList ["f"], .none⟩

/-- An object that the second rule would refuse is accepted, as the first loses the field in
silence. -/
theorem accepted_without_outspoken :
    (validate outspokenBound () none [quiet none ["f"], outspoken] ∅ ()).result = .ok () ∧
      (validate outspokenBound () none [quiet none ["f"], outspoken] ∅ ()).calls.map Call.rule =
        [0] ∧
      ∃ turns, TurnsOf outspokenBound () none [quiet none ["f"], outspoken] ∅ () turns ∧
        LostInSilence outspokenBound () turns := by
  have hok : (validate outspokenBound () none [quiet none ["f"], outspoken] ∅ ()).result =
      .ok () := rfl
  have hcalls : (validate outspokenBound () none [quiet none ["f"], outspoken] ∅ ()).calls.map
      Call.rule = [0] := rfl
  obtain ⟨turns, ht, hiff⟩ := all_called_iff_of_ok hok
  refine ⟨hok, hcalls, turns, ht, Classical.byContradiction fun hsilent => ?_⟩
  rw [hcalls] at hiff
  exact absurd (hiff.2 hsilent) (by decide)

/-! ## Reports without findings -/

/-- The check refused the object without a message anywhere, and its report stands as it was given,
bare or under a label. -/
def Turn.Mute (x : ι) : Turn ι → Prop
  | skipped _ => False
  | ran p given outcome => ∃ r, p.rule.check.call x given = .error (.invalid r) ∧ r.findings = [] ∧
      (outcome.report? = some r ∨ ∃ label, outcome.report? = some (r.under label))

theorem findings_of_mute {t : Turn ι} {r : Report} (hr : t.report? = some r) (h : t.Mute x) :
    r.findings = [] := by
  cases t with
  | skipped p => cases h
  | ran p given outcome =>
    obtain ⟨found, _, hfound, ho | ⟨label, ho⟩⟩ := h
    · rw [show outcome.report? = some r from hr] at ho
      cases ho
      exact hfound
    · rw [show outcome.report? = some r from hr] at ho
      cases ho
      exact Report.findings_under_eq_nil.2 hfound

theorem mute_of_findings {t : Turn ι} {r : Report} (ht : TurnsOf bindings x args line memos s turns)
    (hmem : t ∈ turns) (hr : t.report? = some r) (h : r.findings = []) : t.Mute x := by
  cases t with
  | skipped p => cases hr
  | ran p given outcome =>
    have hr' : outcome.report? = some r := hr
    obtain ⟨_, hdef, _, _, _, _, hi⟩ := invoked_of_course ht.course hmem
    rcases invoke_cases hi with ⟨_, rfl⟩ | ⟨_, _, rfl⟩ | ⟨cause, _, rfl⟩ | ⟨found, hc, hd⟩
    · cases hr'
    · cases hdef
    · cases hr'
      rw [Report.findings_message] at h
      cases h
    · cases hd with
      | bare _ ho =>
        rw [ho] at hr'
        cases hr'
        exact ⟨r, hc, h, Or.inl ho⟩
      | labelled label _ ho =>
        rw [ho] at hr'
        cases hr'
        exact ⟨found, hc, Report.findings_under_eq_nil.1 h, Or.inr ⟨label, ho⟩⟩
      | unplaced fault _ =>
        cases hr'
        -- the fault about the target has a message of its own
        have hm := (Report.findings_merge_eq_nil.1 h).1
        rw [Report.findings_message] at hm
        cases hm

/-- A validation that ends with a report has something to say, unless every rule that failed was
mute. -/
theorem findings_eq_nil_iff_of_invalid {e : Report}
    (h : (validate bindings x args line memos s).result = .error (.invalid e)) :
    ∃ turns, TurnsOf bindings x args line memos s turns ∧
      (∃ t ∈ turns, t.report?.isSome = true) ∧
      (e.findings = [] ↔ ∀ t ∈ turns, t.report?.isSome = true → t.Mute x) := by
  obtain ⟨turns, ht, rfl, hne⟩ := turnsOf_of_invalid h
  refine ⟨turns, ht, ?_, ?_⟩
  · refine Classical.byContradiction fun hnone => hne (Report.mergeAll_eq_empty.2 ?_)
    intro r hr
    obtain ⟨t, hmem, htr⟩ := Turn.mem_reports.1 hr
    exact absurd ⟨t, hmem, by rw [htr]; rfl⟩ hnone
  · rw [Report.findings_mergeAll_eq_nil]
    constructor
    · intro hall t hmem hsome
      obtain ⟨r, hr⟩ := Option.isSome_iff_exists.1 hsome
      exact mute_of_findings ht hmem hr (hall r (Turn.mem_reports.2 ⟨t, hmem, hr⟩))
    · intro hall r hr
      obtain ⟨t, hmem, htr⟩ := Turn.mem_reports.1 hr
      exact findings_of_mute htr (hall t hmem (by rw [htr]; rfl))

end

def quietBound : Bindings Unit := Table.set ∅ 0 ⟨"T", ∅, ⟨fun _ _ => pure ⟨[.named "f"]⟩⟩⟩

/-- The rule that says nothing ends the validation with a report of nothing, under its label. -/
theorem quiet_raises_no_findings :
    (validate quietBound () none [quiet (some "f") []] ∅ ()).result =
        .error (.invalid ((∅ : Report).under "f")) ∧
      ((∅ : Report).under "f").findings = [] ∧
      ∃ turns, TurnsOf quietBound () none [quiet (some "f") []] ∅ () turns ∧
        ∃ t ∈ turns, t.Mute () := by
  have hinvalid : (validate quietBound () none [quiet (some "f") []] ∅ ()).result =
      .error (.invalid ((∅ : Report).under "f")) := rfl
  obtain ⟨turns, ht, ⟨t, hmem, hfailed⟩, hiff⟩ := findings_eq_nil_iff_of_invalid hinvalid
  have hnone : ((∅ : Report).under "f").findings = [] := rfl
  exact ⟨hinvalid, hnone, turns, ht, t, hmem, hiff.1 hnone t hmem hfailed⟩

end Vetting
