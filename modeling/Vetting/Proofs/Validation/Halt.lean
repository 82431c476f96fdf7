import Vetting.Proofs.Rule.Selection
import Vetting.Proofs.Validation.Place
import Vetting.Proofs.Validation.Restart

/-!
# The rule that ends a run

A rule whose turn comes ends the run at once if it lacks an argument, is
breached or defers (`attempt_halts_iff`). No turn comes after that: the run is
that of the line up to the rule, whatever else stands in the line, and its
fault is all that it reports. A run ends with a fault that is not about the
object in no other way, and a rule that is skipped has no part in it.
-/

namespace Vetting

section
variable {σ ι : Type}

/-- How a rule ends a run: its name is told with the least parameter that it lacks, a breach goes
with its text, and a deferral is named after the rule, whatever it was named after before. -/
inductive Rule.Halts (r : Rule ι) (x : ι) (args : Arguments) : Fault → Prop
  | lacking {name : String} : r.LacksFirst args name →
      Halts r x args (.breach (.missingArgument r.name name))
  | asserting {text : String} : (∀ name, ¬ r.Lacks args name) →
      r.check.call x (args.restrict r.params) = .error (.breach text) →
      Halts r x args (.breach (.other text))
  | deferring {d : Deferral} : (∀ name, ¬ r.Lacks args name) →
      r.check.call x (args.restrict r.params) = .error (.deferred d) →
      Halts r x args (.deferred ⟨d.needed, some r.name⟩)

/-- The turn comes to the rule `p` at place `k` of the line, after these turns. -/
structure ComesTo (bindings : Bindings σ) (x : ι) (args : Option Arguments)
    (line : List (Posting ι)) (memos₀ : Memos) (s₀ : σ) (k : Nat) (p : Posting ι)
    (turns : List (Turn ι)) : Prop where
  course : ∃ memos s, Course bindings x (args.getD ∅) memos₀ s₀ turns memos s
  place : turns.length = k
  onward : ∃ rest, line = turns.map Turn.posting ++ p :: rest

def ExecutedAt (bindings : Bindings σ) (x : ι) (args : Option Arguments) (line : List (Posting ι))
    (memos₀ : Memos) (s₀ : σ) (k : Nat) (p : Posting ι) : Prop :=
  ∃ turns, ComesTo bindings x args line memos₀ s₀ k p turns ∧
    (bindings.dependencies p.id).meets (Turn.lostBy turns) = false

def SkippedAt (bindings : Bindings σ) (x : ι) (args : Option Arguments) (line : List (Posting ι))
    (memos₀ : Memos) (s₀ : σ) (k : Nat) (p : Posting ι) : Prop :=
  ∃ turns, ComesTo bindings x args line memos₀ s₀ k p turns ∧
    (bindings.dependencies p.id).meets (Turn.lostBy turns) = true

end

section
variable {σ ι : Type} {bindings : Bindings σ} {x : ι} {args : Arguments} {r : Rule ι}
  {p q : Posting ι} {memo memo' : Memo} {memos memos' : Memos} {s s' : σ} {fault : Fault}

/-! ## What ends a run -/

theorem Rule.Halts.not_invalid (h : r.Halts x args fault) : fault.isInvalid = false := by
  cases h <;> rfl

theorem Rule.Halts.report? (h : r.Halts x args fault) : fault.report? = none := by
  cases h <;> rfl

theorem call_of_invoke_error {binding : Option (Binding σ)} {given : Arguments}
    (h : r.invoke binding x given memo s = (.error fault, memo', s')) :
    ∃ text, r.check.call x given = .error (.breach text) ∧ fault = .breach (.other text) := by
  unfold Rule.invoke at h
  split at h <;> cases h
  exact ⟨_, ‹_›, rfl⟩

theorem call_of_invoke_deferred {binding : Option (Binding σ)} {given : Arguments} {d : Deferral}
    (h : r.invoke binding x given memo s = (.ok (.deferred d), memo', s')) :
    r.check.call x given = .error (.deferred d) := by
  rcases invoke_cases h with ⟨_, ho⟩ | ⟨d', hc, ho⟩ | ⟨_, _, ho⟩ | ⟨report, _, hd⟩
  · cases ho
  · cases ho
    exact hc
  · cases ho
  · cases hd with
    | bare _ hr => cases hr
    | labelled _ _ hr => cases hr

theorem invoke_of_breach {binding : Option (Binding σ)} {given : Arguments} {text : String}
    (h : r.check.call x given = .error (.breach text)) :
    r.invoke binding x given memo s = (.error (.breach (.other text)), memo, s) := by
  rw [Rule.invoke, h]

theorem invoke_of_deferral {binding : Option (Binding σ)} {given : Arguments} {d : Deferral}
    (h : r.check.call x given = .error (.deferred d)) :
    r.invoke binding x given memo s = (.ok (.deferred d), memo, s) := by
  rw [Rule.invoke, h]

theorem attempt_halts_iff :
    (attempt bindings x args p memos s).verdict = .error fault ↔ p.rule.Halts x args fault := by
  constructor
  · intro h
    cases hs : p.rule.select args with
    | error fault' =>
      rw [attempt_of_unselected hs] at h
      cases h
      obtain ⟨name, hfirst, rfl⟩ := RuleInfo.select_eq_error_iff.1 hs
      exact .lacking hfirst
    | ok given =>
      obtain ⟨hlacks, rfl⟩ := RuleInfo.select_eq_ok_iff.1 hs
      rcases hi : p.rule.invoke (bindings.get? p.id) x (args.restrict p.rule.params)
        (memos.of p.id) s with ⟨outcome, memo, s'⟩
      rw [attempt_of_invoked hs hi] at h
      cases outcome with
      | error fault' =>
        cases h
        obtain ⟨text, hc, rfl⟩ := call_of_invoke_error hi
        exact .asserting hlacks hc
      | ok outcome =>
        cases outcome with
        | deferred d =>
          cases h
          exact .deferring hlacks (call_of_invoke_deferred hi)
        | _ => cases h
  · intro h
    cases h with
    | lacking hfirst =>
      rw [attempt_of_unselected (RuleInfo.select_eq_error_iff.2 ⟨_, hfirst, rfl⟩)]
    | asserting hlacks hc =>
      have hs := RuleInfo.select_eq_ok_iff.2 ⟨hlacks, rfl⟩
      rw [attempt_of_invoked hs (invoke_of_breach hc)]
      rfl
    | deferring hlacks hc =>
      have hs := RuleInfo.select_eq_ok_iff.2 ⟨hlacks, rfl⟩
      rw [attempt_of_invoked hs (invoke_of_deferral hc)]
      rfl

end

section
variable {σ ι : Type} {bindings : Bindings σ} {x : ι} {args : Option Arguments}
  {line : List (Posting ι)} {memos₀ : Memos} {s₀ : σ} {turns turns' : List (Turn ι)}
  {p q : Posting ι} {k j : Nat} {fault : Fault}

/-! ## Places in a line -/

theorem CalledAt.comesTo {given : Arguments} {answer : Except Fault Outcome}
    (h : CalledAt bindings x args line memos₀ s₀ k p given answer) :
    ∃ turns, ComesTo bindings x args line memos₀ s₀ k p turns := by
  obtain ⟨turns, rest, _, _, _, _, hc, hline, hplace, -⟩ := h.reached
  exact ⟨turns, ⟨_, _, hc⟩, hplace, rest, hline⟩

theorem ComesTo.getElem? {ps : List (Posting ι)}
    (h : ComesTo bindings x args ps memos₀ s₀ k p turns) : ps[k]? = some p := by
  obtain ⟨-, hk, rest, rfl⟩ := h
  rw [List.getElem?_append_right (by simp [hk])]
  simp [hk]

theorem ComesTo.lt_length (h : ComesTo bindings x args line memos₀ s₀ k p turns) :
    k < line.length :=
  (List.getElem?_eq_some_iff.1 h.getElem?).1

theorem ComesTo.unique (h : ComesTo bindings x args line memos₀ s₀ k p turns)
    (h' : ComesTo bindings x args line memos₀ s₀ k q turns') : q = p ∧ turns' = turns := by
  have hq : q = p := Option.some.inj (h'.getElem?.symm.trans h.getElem?)
  obtain ⟨⟨_, _, hc⟩, hk, rest, hline⟩ := h
  obtain ⟨⟨_, _, hc'⟩, hk', rest', hline'⟩ := h'
  have hfront := (List.append_inj (hline.symm.trans hline') (by simp [hk, hk'])).1
  exact ⟨hq, (course_unique hc hc' hfront.symm).1⟩

theorem ComesTo.skipped_or_executed (h : ComesTo bindings x args line memos₀ s₀ k p turns) :
    SkippedAt bindings x args line memos₀ s₀ k p ∨ ExecutedAt bindings x args line memos₀ s₀ k p := by
  cases hm : (bindings.dependencies p.id).meets (Turn.lostBy turns) with
  | true => exact Or.inl ⟨turns, h, hm⟩
  | false => exact Or.inr ⟨turns, h, hm⟩

theorem ComesTo.le_of_halts (h : ComesTo bindings x args line memos₀ s₀ j q turns)
    (hp : ExecutedAt bindings x args line memos₀ s₀ k p)
    (hhalts : p.rule.Halts x (args.getD ∅) fault) : j ≤ k := by
  obtain ⟨front, ⟨⟨memos, s, hc⟩, rfl, rest, hline⟩, hm⟩ := hp
  obtain ⟨⟨_, _, hc'⟩, rfl, rest', hline'⟩ := h
  refine Nat.not_lt.1 fun hlt => ?_
  -- the longer course has a turn of the rule that ends the run: it is neither skipped nor goes on
  obtain ⟨t, after, -, ⟨-, hmeets⟩ | ⟨given, outcome, memo, s', -, hs, hi, hd⟩⟩ :=
    next_turn hc hc' (hline.symm.trans hline') hlt
  · rw [hm] at hmeets
    cases hmeets
  · have hverdict : (attempt bindings x (args.getD ∅) p memos s).verdict = .error fault :=
      attempt_halts_iff.2 hhalts
    rw [attempt_of_run hs hi hd] at hverdict
    cases hverdict

/-! ## The end of the run -/

theorem validate_of_halts (hp : ExecutedAt bindings x args line memos₀ s₀ k p)
    (hhalts : p.rule.Halts x (args.getD ∅) fault) :
    (validate bindings x args line memos₀ s₀).result = .error fault ∧
      ∀ rest, validate bindings x args (line.take (k + 1) ++ rest) memos₀ s₀ =
        validate bindings x args line memos₀ s₀ := by
  obtain ⟨turns, ⟨⟨memos, s, hc⟩, rfl, after, rfl⟩, hm⟩ := hp
  have hfront : (turns.map Turn.posting ++ p :: after).take (turns.length + 1) =
      turns.map Turn.posting ++ [p] := by
    rw [List.take_append, List.length_map, Nat.add_sub_cancel_left,
      List.take_of_length_le (by simp)]
    rfl
  have hverdict : (attempt bindings x (args.getD ∅) p memos s).verdict = .error fault :=
    attempt_halts_iff.2 hhalts
  rcases ha : attempt bindings x (args.getD ∅) p memos s with ⟨verdict, calls, memos', s'⟩
  rw [ha] at hverdict
  cases hverdict
  have hrun : ∀ rest, validate bindings x args (turns.map Turn.posting ++ p :: rest) memos₀ s₀ =
      Run.after ⟨.error fault, [.running p.rule.name], calls, memos', s'⟩
        (turns.map (Turn.event bindings)) (turns.filterMap Turn.call?) := by
    intro rest
    rw [validate, validateFrom_of_course hc, validateFrom_halt hm ha]
  refine ⟨by rw [hrun]; rfl, fun rest => ?_⟩
  rw [hfront, List.append_assoc, List.singleton_append, hrun, hrun]

theorem result_eq_error_iff : ((validate bindings x args line memos₀ s₀).result = .error fault ∧
    fault.isInvalid = false) ↔ ∃ k p, ExecutedAt bindings x args line memos₀ s₀ k p ∧
      p.rule.Halts x (args.getD ∅) fault := by
  constructor
  · rintro ⟨hresult, hinvalid⟩
    rcases course_or_halt bindings x (args.getD ∅) memos₀ s₀ line with
      ⟨turns, memos, s, hc, hline⟩ | ⟨turns, memos, s, p, rest, fault', hc, hline, hm, hf, -⟩
    · rw [← hline, result_of_course hc] at hresult
      -- a run through the whole line ends well or with a report
      split at hresult
      · cases hresult
      · cases hresult
        cases hinvalid
    · have hresult' := result_of_halt hc hm hf rest
      rw [← hline] at hresult'
      cases hresult.symm.trans hresult'
      exact ⟨_, p, ⟨turns, ⟨⟨_, _, hc⟩, rfl, rest, hline⟩, hm⟩, attempt_halts_iff.1 hf⟩
  · rintro ⟨k, p, hp, hhalts⟩
    exact ⟨(validate_of_halts hp hhalts).1, hhalts.not_invalid⟩

theorem withoutSkips_of_skippedAt (h : SkippedAt bindings x args line memos₀ s₀ k p) :
    (validate bindings x args line memos₀ s₀).withoutSkips =
      (validate bindings x args (line.eraseIdx k) memos₀ s₀).withoutSkips := by
  obtain ⟨turns, ⟨⟨memos, s, hc⟩, rfl, rest, rfl⟩, hm⟩ := h
  have hwithout : (turns.map Turn.posting ++ p :: rest).eraseIdx turns.length =
      turns.map Turn.posting ++ rest := by
    rw [List.eraseIdx_append_of_length_le (by simp), List.length_map, Nat.sub_self]
    rfl
  rw [hwithout, validate, validate, validateFrom_of_course hc, validateFrom_of_course hc,
    validateFrom_skip hm, Run.withoutSkips_after, Run.withoutSkips_after, Run.withoutSkips_after]
  rfl

theorem not_executedAt_of_skippedAt (h : SkippedAt bindings x args line memos₀ s₀ k p) :
    ¬ ExecutedAt bindings x args line memos₀ s₀ k p := by
  obtain ⟨turns, hcomes, hm⟩ := h
  intro ⟨turns', hcomes', hm'⟩
  obtain ⟨-, rfl⟩ := hcomes.unique hcomes'
  rw [hm] at hm'
  cases hm'

/-- A run ends with a fault that is not about the object just if a rule ends it that has its turn
and is not skipped. That rule is the first and only one, nothing that was reported before is in its
fault, no later check is called, and the run does not depend on what stands after it. A rule that is
skipped is as good as not there. -/
theorem first_halt_decides (bindings : Bindings σ) (x : ι) (args : Option Arguments)
    (line : List (Posting ι)) (memos₀ : Memos) (s₀ : σ) :
    (∀ fault, ((validate bindings x args line memos₀ s₀).result = .error fault ∧
        fault.isInvalid = false) ↔
      ∃ k p, ExecutedAt bindings x args line memos₀ s₀ k p ∧ p.rule.Halts x (args.getD ∅) fault) ∧
    (∀ k p fault, ExecutedAt bindings x args line memos₀ s₀ k p →
      p.rule.Halts x (args.getD ∅) fault →
        (validate bindings x args line memos₀ s₀).result = .error fault ∧ fault.report? = none ∧
        (∀ j q fault', ExecutedAt bindings x args line memos₀ s₀ j q →
          q.rule.Halts x (args.getD ∅) fault' → j = k) ∧
        (∀ j q given answer, CalledAt bindings x args line memos₀ s₀ j q given answer → j ≤ k) ∧
        ∀ rest, validate bindings x args (line.take (k + 1) ++ rest) memos₀ s₀ =
          validate bindings x args line memos₀ s₀) ∧
    ∀ k p, SkippedAt bindings x args line memos₀ s₀ k p →
      ¬ ExecutedAt bindings x args line memos₀ s₀ k p ∧
      (validate bindings x args line memos₀ s₀).withoutSkips =
        (validate bindings x args (line.eraseIdx k) memos₀ s₀).withoutSkips := by
  refine ⟨fun fault => result_eq_error_iff, ?_, ?_⟩
  · intro k p fault hp hhalts
    obtain ⟨hresult, hrest⟩ := validate_of_halts hp hhalts
    refine ⟨hresult, hhalts.report?, ?_, ?_, hrest⟩
    · intro j q fault' hq hhalts'
      have ⟨turns, hcomes, _⟩ := hp
      have ⟨turns', hcomes', _⟩ := hq
      exact Nat.le_antisymm (hcomes'.le_of_halts hp hhalts) (hcomes.le_of_halts hq hhalts')
    · intro j q given answer hcalled
      obtain ⟨turns, hcomes⟩ := hcalled.comesTo
      exact hcomes.le_of_halts hp hhalts
  · intro k p hskipped
    exact ⟨not_executedAt_of_skippedAt hskipped, withoutSkips_of_skippedAt hskipped⟩

def refusing (id : RuleId) (name : String) (refusal : Refusal) (discards : List FieldRef) :
    Posting Unit where
  id := id
  rule := {
    name := name, params := ∅, reads := ∅, signature := .method
    check := .returning fun _ _ => .error refusal
    target := none, discards := discards, owner := none }

example :
    let bindings : Bindings Unit := (∅ : Bindings Unit).set 1 ⟨"T", .ofList ["body"], .none⟩
    let line := [refusing 0 "loser" (.invalid (.message "bad body")) ["body"],
      refusing 1 "reader" (.breach "never called") [],
      refusing 2 "waiting" (.deferred ⟨"author", some "another"⟩) [],
      refusing 3 "later" (.breach "never called") []]
    (validate bindings () none line ∅ ()).result = .error (.deferred ⟨"author", some "waiting"⟩) :=
  rfl

end

end Vetting
