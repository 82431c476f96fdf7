import Vetting.Proofs.Validation.Step

/-!
# Restarting on a pruned line

A plainer account of validation has no set of lost fields. When a rule discards
fields, every rule that depends on one of them is deleted from the rest of the
line, and the run goes on with what remains. Both accounts come to the same:
the same result, the same calls with the same arguments in the same order, and
the same memory of the rules. Only the log tells them apart, where the plainer
account has nothing to say about a rule that is gone.
-/

namespace Vetting

section
variable {σ ι : Type}

/-- The rules of the line that depend on none of the fields. -/
def Bindings.prune (bindings : Bindings σ) (fields : NameSet) (line : List (Posting ι)) :
    List (Posting ι) :=
  line.filter fun p => !(bindings.dependencies p.id).meets fields

theorem Bindings.length_prune_le (bindings : Bindings σ) (fields : NameSet)
    (line : List (Posting ι)) : (bindings.prune fields line).length ≤ line.length :=
  List.length_filter_le _ _

/-- Runs the first rule of the line, and then the rest of it without the rules that depend on a
field that the first discards. -/
def restart (bindings : Bindings σ) (x : ι) (args : Arguments) :
    List (Posting ι) → Option Report → Memos → σ → Run σ
  | [], gathered, memos, s => conclude gathered memos s
  | p :: line, gathered, memos, s =>
    match p.rule.select args with
    | .error fault => ⟨.error fault, [.running p.rule.name], [], memos, s⟩
    | .ok given =>
      let (outcome, memo, s) := p.rule.invoke (bindings.get? p.id) x given (memos.of p.id) s
      let memos := memos.set p.id memo
      match outcome with
      | .error fault => ⟨.error fault, [.running p.rule.name], [⟨p.id, given⟩], memos, s⟩
      | .ok (.deferred d) =>
        ⟨.error (.deferred { d with rule := some p.rule.name }), [.running p.rule.name],
          [⟨p.id, given⟩], memos, s⟩
      | .ok .passed =>
        (restart bindings x args line gathered memos s).after
          [.running p.rule.name] [⟨p.id, given⟩]
      | .ok (.failed report) =>
        (restart bindings x args line (some (.gather gathered report)) memos s).after
          [.running p.rule.name] [⟨p.id, given⟩]
      | .ok (.discarding fields report) =>
        have := bindings.length_prune_le fields line
        (restart bindings x args (bindings.prune fields line) (some (.gather gathered report))
          memos s).after [.running p.rule.name] [⟨p.id, given⟩]
termination_by line => line.length

end

def Event.isSkipping : Event → Bool
  | skipping .. => true
  | _ => false

/-- The run as one would log it that does not know of the rules that were skipped. -/
def Run.withoutSkips {σ : Type} (run : Run σ) : Run σ :=
  { run with events := run.events.filter (!·.isSkipping) }

theorem Run.withoutSkips_after {σ : Type} (run : Run σ) (es : List Event) (cs : List Call) :
    (run.after es cs).withoutSkips = run.withoutSkips.after (es.filter (!·.isSkipping)) cs := by
  unfold withoutSkips after
  simp only [List.filter_append]

theorem withoutSkips_conclude {σ : Type} (gathered : Option Report) (memos : Memos) (s : σ) :
    (conclude gathered memos s).withoutSkips = conclude gathered memos s := by
  unfold conclude
  cases gathered with
  | none => rfl
  | some report => cases h : report.isEmpty <;> simp [h, Run.withoutSkips, Event.isSkipping]

section
variable {σ ι : Type} (bindings : Bindings σ) (x : ι) (args : Arguments)

theorem prune_nil (fields : NameSet) : bindings.prune fields ([] : List (Posting ι)) = [] := rfl

theorem prune_empty (line : List (Posting ι)) : bindings.prune ∅ line = line :=
  List.filter_eq_self.2 fun p _ => by simp

theorem prune_cons_of_meets {fields : NameSet} {p : Posting ι} (line : List (Posting ι))
    (h : (bindings.dependencies p.id).meets fields = true) :
    bindings.prune fields (p :: line) = bindings.prune fields line :=
  List.filter_cons_of_neg (by simp [h])

theorem prune_cons_of_not_meets {fields : NameSet} {p : Posting ι} (line : List (Posting ι))
    (h : (bindings.dependencies p.id).meets fields = false) :
    bindings.prune fields (p :: line) = p :: bindings.prune fields line :=
  List.filter_cons_of_pos (by simp [h])

theorem prune_prune (fields lost : NameSet) (line : List (Posting ι)) :
    bindings.prune fields (bindings.prune lost line) = bindings.prune (lost ∪ fields) line := by
  unfold Bindings.prune
  rw [List.filter_filter]
  apply List.filter_congr
  intro p _
  rw [NameSet.meets_union, Bool.not_or, Bool.and_comm]

/-- The set of lost fields stands for the rules that pruning would have deleted by now. -/
theorem withoutSkips_validateFrom : ∀ (line : List (Posting ι)) (gathered : Option Report)
    (lost : NameSet) (memos : Memos) (s : σ),
    (validateFrom bindings x args line gathered lost memos s).withoutSkips =
      restart bindings x args (bindings.prune lost line) gathered memos s
  | [], gathered, lost, memos, s => by
    rw [validateFrom, prune_nil, restart, withoutSkips_conclude]
  | p :: line, gathered, lost, memos, s => by
    have ih := withoutSkips_validateFrom line
    cases h : (bindings.dependencies p.id).meets lost with
    | true =>
      rw [validateFrom_skip h, Run.withoutSkips_after, prune_cons_of_meets bindings line h, ih]
      rfl
    | false =>
      rw [prune_cons_of_not_meets bindings line h, restart]
      cases hs : p.rule.select args with
      | error fault =>
        rw [validateFrom_halt h (attempt_of_unselected hs)]
        rfl
      | ok given =>
        rcases hi : p.rule.invoke (bindings.get? p.id) x given (memos.of p.id) s with
          ⟨outcome, memo, s'⟩
        have ha := attempt_of_invoked hs hi
        simp only [hi]
        cases outcome with
        | error fault =>
          rw [validateFrom_halt h ha]
          rfl
        | ok outcome =>
          cases outcome with
          | deferred d =>
            rw [validateFrom_halt h ha]
            rfl
          | passed =>
            rw [validateFrom_run h ha, Run.withoutSkips_after, ih, NameSet.union_empty]
            rfl
          | failed report =>
            rw [validateFrom_run h ha, Run.withoutSkips_after, ih, NameSet.union_empty]
            rfl
          | discarding fields report =>
            rw [validateFrom_run h ha, Run.withoutSkips_after, ih, ← prune_prune]
            rfl

/-- Keeping the lost fields and testing each rule against them is the same as deleting the rules
that depend on them at once. -/
theorem validate_eq_restart (args : Option Arguments) (line : List (Posting ι)) (memos : Memos)
    (s : σ) :
    (validate bindings x args line memos s).withoutSkips =
      restart bindings x (args.getD ∅) line none memos s := by
  unfold validate
  rw [withoutSkips_validateFrom, prune_empty]

end

end Vetting
