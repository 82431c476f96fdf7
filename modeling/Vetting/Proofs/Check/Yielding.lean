import Vetting.Check.Basic
import Vetting.Proofs.Report.Grouping

/-!
# Checks that yield

Problems that a check yields one by one become one report, the same that their
findings make; a message without a path is a finding about the whole object.
Whatever paths there are, repeated or one in front of the other, each problem is
a finding of the report and nothing else is, and problems of one path keep their
order. So a check that has yielded anything never ends with an empty report.
-/

namespace Vetting

namespace Report

theorem foldl_merge_yielded (ys : List Yielded) : ∀ r : Report,
    ys.foldl (fun r y => r.merge (match y with
      | .message m => message m
      | .located path m => atPath path m)) r =
    (ys.map Yielded.finding).foldl (fun r f => r.merge (atPath f.path f.text)) r := by
  induction ys with
  | nil => exact fun _ => rfl
  | cons y ys ih =>
    intro r
    rw [List.foldl_cons, List.map_cons, List.foldl_cons, ih]
    cases y with
    | message m => rfl
    | located path m => rfl

theorem ofYielded_eq_ofFindings (ys : List Yielded) :
    ofYielded ys = ofFindings (ys.map Yielded.finding) :=
  foldl_merge_yielded ys ∅

theorem stable_findings_ofFindings (fs : List Finding) (path : List String) :
    (ofFindings fs).findings.filter (·.path = path) = fs.filter (·.path = path) := by
  rw [filter_path_eq, findings_at, messagesAt_ofFindings, ← filter_path_eq]

theorem ofFindings_eq_empty {fs : List Finding} : ofFindings fs = ∅ ↔ fs = [] := by
  constructor
  · intro h
    have hperm := perm_of_stable (stable_findings_ofFindings fs)
    rw [h] at hperm
    exact hperm.symm.eq_nil
  · intro h
    rw [h]
    rfl

end Report

namespace Check

variable {ι : Type}

theorem collect_of_ne_nil {ys : List Yielded} (h : ys ≠ []) :
    collect ys = .error (.invalid (.ofYielded ys)) := by
  cases ys with
  | nil => exact absurd rfl h
  | cons y ys => rfl

theorem collect_eq_ok {ys : List Yielded} : collect ys = .ok () ↔ ys = [] := by
  constructor
  · intro h
    apply Decidable.byContradiction
    intro hne
    rw [collect_of_ne_nil hne] at h
    cases h
  · intro h
    rw [h]
    rfl

/-- A check that yields passes just if it yields nothing. Otherwise its report is the one that the
findings make: it is not empty, and it has each of them, those of one path in their order. -/
theorem yielding_reports_all (run : ι → Arguments → List Yielded) (x : ι) (args : Arguments) :
    ((yielding run).call x args = .ok () ↔ run x args = []) ∧
    (run x args ≠ [] → ∃ report, (yielding run).call x args = .error (.invalid report) ∧
      report = .ofFindings ((run x args).map Yielded.finding) ∧ report.isEmpty = false ∧
      report.findings.Perm ((run x args).map Yielded.finding) ∧
      ∀ path, report.findings.filter (·.path = path) =
        ((run x args).map Yielded.finding).filter (·.path = path)) := by
  refine ⟨collect_eq_ok, fun hne => ?_⟩
  have hstable := Report.stable_findings_ofFindings ((run x args).map Yielded.finding)
  have hcall : (yielding run).call x args =
      .error (.invalid (.ofFindings ((run x args).map Yielded.finding))) := by
    rw [← Report.ofYielded_eq_ofFindings]
    exact collect_of_ne_nil hne
  refine ⟨_, hcall, rfl, ?_, perm_of_stable hstable, hstable⟩
  rw [← Bool.not_eq_true, Report.isEmpty_iff, Report.ofFindings_eq_empty, List.map_eq_nil_iff]
  exact hne

/-- Messages and problems of `x` and below it, in turns. -/
theorem yielding_reports_all_inTurns :
    let ys : List Yielded := [.located ["x", "y"] "deep", .message "first", .located ["x"] "near",
      .located [] "second", .located ["x", "y"] "deep"]
    ys ≠ [] ∧ ∃ report, (yielding fun (_ : Unit) _ => ys).call () ∅ = .error (.invalid report) ∧
      report.isEmpty = false ∧
      report.findings = [⟨[], "first"⟩, ⟨[], "second"⟩, ⟨["x"], "near"⟩, ⟨["x", "y"], "deep"⟩,
        ⟨["x", "y"], "deep"⟩] := by
  intro ys
  have hne : ys ≠ [] := by decide
  obtain ⟨report, hcall, hreport, hempty, -⟩ :=
    (yielding_reports_all (fun (_ : Unit) _ => ys) () ∅).2 hne
  exact ⟨hne, report, hcall, hempty, by rw [hreport]; decide⟩

end Check

end Vetting
