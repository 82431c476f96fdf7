import Vetting.Proofs.Validation.Course

/-!
# What a validation gathers

The report that a validation ends with is the merge, rule by rule, of what the
rules reported that were called. Nothing is lost on the way, nothing comes
twice, and a skipped rule adds nothing: at every path the messages are those of
the rules that were called, one rule after another. A validation that ends well
was told of nothing at all.
-/

namespace Vetting

variable {σ ι : Type}

theorem messagesAt_mergeAll_reports (turns : List (Turn ι)) (path : List String) :
    (Report.mergeAll (Turn.reports turns)).messagesAt path =
      turns.flatMap (Turn.messagesAt path) := by
  rw [Report.messagesAt_mergeAll, Turn.flatMap_reports]

theorem validate_gathers_reports (bindings : Bindings σ) (x : ι) (args : Option Arguments)
    (line : List (Posting ι)) (memos : Memos) (s : σ) :
    (∀ e, (validate bindings x args line memos s).result = .error (.invalid e) →
      ∃ turns, TurnsOf bindings x args line memos s turns ∧
        e = Report.mergeAll (Turn.reports turns) ∧
        ∀ path, e.messagesAt path = turns.flatMap (Turn.messagesAt path)) ∧
    ((validate bindings x args line memos s).result = .ok () →
      ∃ turns, TurnsOf bindings x args line memos s turns ∧ ∀ r ∈ Turn.reports turns, r = ∅) := by
  constructor
  · intro e h
    obtain ⟨turns, ht, he, _⟩ := turnsOf_of_invalid h
    refine ⟨turns, ht, he, fun path => ?_⟩
    rw [he, messagesAt_mergeAll_reports]
  · intro h
    exact turnsOf_of_ok h

end Vetting
