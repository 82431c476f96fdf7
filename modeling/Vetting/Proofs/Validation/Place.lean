import Vetting.Proofs.Validation.Course

/-!
# Calls by their place

A rule can stand in a line more than once, so what happens to it is told of a
place. The rule at a place is called when the line has a course up to that place,
the rule depends on nothing that the course has lost, and it has its arguments;
its answer may end the run. A run makes just these calls (`mem_calls_iff`), and
a rule that loses fields at one place keeps the rules that depend on them from
being called at all later places.
-/

namespace Vetting

section
variable {σ ι : Type} {bindings : Bindings σ} {x : ι} {args : Option Arguments}
  {line : List (Posting ι)} {memos₀ memos : Memos} {s₀ s : σ} {turns : List (Turn ι)}
  {p q : Posting ι} {given given' : Arguments} {answer : Except Fault Outcome} {k i j : Nat}

/-- The rule `p` at place `k` of the line is called with these arguments, and comes to `answer`. -/
structure CalledAt (bindings : Bindings σ) (x : ι) (args : Option Arguments)
    (line : List (Posting ι)) (memos₀ : Memos) (s₀ : σ) (k : Nat) (p : Posting ι)
    (given : Arguments) (answer : Except Fault Outcome) : Prop where
  reached : ∃ turns rest memos s memo s', Course bindings x (args.getD ∅) memos₀ s₀ turns memos s ∧
    line = turns.map Turn.posting ++ p :: rest ∧ turns.length = k ∧
    (bindings.dependencies p.id).meets (Turn.lostBy turns) = false ∧
    p.rule.invoke (bindings.get? p.id) x given (memos.of p.id) s = (answer, memo, s')
  selected : p.rule.select (args.getD ∅) = .ok given

/-! ## Parts of a course -/

theorem course_of_prefix {args : Arguments} (h : Course bindings x args memos₀ s₀ turns memos s) :
    ∀ {front : List (Turn ι)}, front <+: turns →
      ∃ memos' s', Course bindings x args memos₀ s₀ front memos' s' := by
  induction h with
  | start =>
    intro front hpre
    rw [List.prefix_nil.1 hpre]
    exact ⟨memos₀, s₀, .start⟩
  | skip p h hm ih =>
    intro front hpre
    rcases List.prefix_concat_iff.1 hpre with rfl | hpre
    · exact ⟨_, _, .skip p h hm⟩
    · exact ih hpre
  | run h hm hs hi hd ih =>
    intro front hpre
    rcases List.prefix_concat_iff.1 hpre with rfl | hpre
    · exact ⟨_, _, .run h hm hs hi hd⟩
    · exact ih hpre

/-- Where one course of a line ends, a longer one goes on with the turn of the next rule. -/
theorem next_turn {args : Arguments} {front : List (Turn ι)} {memos' : Memos} {s' : σ}
    {rest rest' : List (Posting ι)} (hfront : Course bindings x args memos₀ s₀ front memos s)
    (h : Course bindings x args memos₀ s₀ turns memos' s')
    (hline : front.map Turn.posting ++ p :: rest = turns.map Turn.posting ++ rest')
    (hlen : front.length < turns.length) :
    ∃ t after, turns = front ++ t :: after ∧
      (t = .skipped p ∧ (bindings.dependencies p.id).meets (Turn.lostBy front) = true ∨
        ∃ given outcome memo s'', t = .ran p given outcome ∧ p.rule.select args = .ok given ∧
          p.rule.invoke (bindings.get? p.id) x given (memos.of p.id) s = (.ok outcome, memo, s'') ∧
          outcome.isDeferred = false) := by
  obtain ⟨before, t, after, rfl, hbefore⟩ :
      ∃ before t after, turns = before ++ t :: after ∧ before.length = front.length :=
    ⟨turns.take front.length, turns[front.length], turns.drop (front.length + 1), by simp,
      by simp; omega⟩
  rw [List.map_append, List.map_cons, List.append_assoc] at hline
  obtain ⟨hmap, htail⟩ := List.append_inj hline (by simp [hbefore])
  have hpre : before ++ [t] <+: before ++ t :: after := ⟨after, by simp⟩
  obtain ⟨_, _, ht⟩ := course_of_prefix h hpre
  rcases course_last ht rfl with ⟨hrun, hb, hmeets⟩ | ⟨q, _, _, _, _, _, rfl, hb, -, hs, hi, -⟩
  · obtain ⟨rfl, -⟩ := course_unique hfront hb hmap.symm
    cases t with
    | ran => cases hrun
    | skipped q =>
      cases htail
      exact ⟨_, after, rfl, Or.inl ⟨rfl, hmeets⟩⟩
  · obtain ⟨rfl, rfl, rfl⟩ := course_unique hfront hb hmap.symm
    cases htail
    obtain ⟨-, hd, -⟩ := invoked_of_course ht (List.mem_append_right _ (List.mem_singleton_self _))
    exact ⟨_, after, rfl, Or.inr ⟨_, _, _, _, rfl, hs, hi, hd⟩⟩

theorem calledAt_of_course {before after : List (Turn ι)} {rest : List (Posting ι)}
    {outcome : Outcome}
    (h : Course bindings x (args.getD ∅) memos₀ s₀ turns memos s)
    (hturns : turns = before ++ .ran p given outcome :: after)
    (hline : line = turns.map Turn.posting ++ rest) :
    CalledAt bindings x args line memos₀ s₀ before.length p given (.ok outcome) := by
  have hpre : before ++ [.ran p given outcome] <+: turns := ⟨after, by rw [hturns]; simp⟩
  obtain ⟨memos', s', hc⟩ := course_of_prefix h hpre
  rcases course_last hc rfl with ⟨hrun, -⟩ | ⟨_, _, _, _, _, _, ht, hb, hm, hs, hi, -⟩
  · cases hrun
  · cases ht
    refine ⟨⟨before, after.map Turn.posting ++ rest, _, _, _, _, hb, ?_, rfl, hm, hi⟩, hs⟩
    rw [hline, hturns]
    simp [Turn.posting]

/-! ## Calls of a run -/

/-- A run goes through the course of its line, or through a course up to a rule that ends it. -/
theorem validate_cases (bindings : Bindings σ) (x : ι) (args : Option Arguments)
    (line : List (Posting ι)) (memos₀ : Memos) (s₀ : σ) :
    (∃ turns memos s, Course bindings x (args.getD ∅) memos₀ s₀ turns memos s ∧
      line = turns.map Turn.posting ∧
      (validate bindings x args line memos₀ s₀).calls = turns.filterMap Turn.call? ∧
      (validate bindings x args line memos₀ s₀).memos = memos ∧
      (validate bindings x args line memos₀ s₀).state = s) ∨
    ∃ turns memos s p rest fault calls memos' s',
      Course bindings x (args.getD ∅) memos₀ s₀ turns memos s ∧
      line = turns.map Turn.posting ++ p :: rest ∧
      (bindings.dependencies p.id).meets (Turn.lostBy turns) = false ∧
      attempt bindings x (args.getD ∅) p memos s = ⟨.error fault, calls, memos', s'⟩ ∧
      (validate bindings x args line memos₀ s₀).calls = turns.filterMap Turn.call? ++ calls ∧
      (validate bindings x args line memos₀ s₀).memos = memos' ∧
      (validate bindings x args line memos₀ s₀).state = s' := by
  rcases course_or_halt bindings x (args.getD ∅) memos₀ s₀ line with
    ⟨turns, memos, s, hc, hl⟩ | ⟨turns, memos, s, p, rest, fault, hc, hl, hm, hf, -⟩
  · obtain ⟨h₁, h₂, h₃⟩ := conclude_calls (Turn.gathered turns) memos s
    refine Or.inl ⟨turns, memos, s, hc, hl.symm, ?_⟩
    rw [← hl, validate_of_course hc]
    exact ⟨by show _ ++ _ = _; rw [h₁, List.append_nil], h₂, h₃⟩
  · rcases ha : attempt bindings x (args.getD ∅) p memos s with ⟨verdict, calls, memos', s'⟩
    rw [ha] at hf
    cases hf
    refine Or.inr ⟨turns, memos, s, p, rest, fault, calls, memos', s', hc, hl, hm, ha, ?_⟩
    show (validateFrom _ _ _ _ _ _ _ _).calls = _ ∧ _
    unfold validate
    rw [hl, validateFrom_of_course hc, validateFrom_halt hm ha]
    exact ⟨rfl, rfl, rfl⟩

theorem exists_of_mem_calls {c : Call}
    (h : c ∈ (validate bindings x args line memos₀ s₀).calls) : ∃ k p given answer,
      CalledAt bindings x args line memos₀ s₀ k p given answer ∧ c = ⟨p.id, given⟩ := by
  have hturn : ∀ {turns memos s rest}, Course bindings x (args.getD ∅) memos₀ s₀ turns memos s →
      line = turns.map Turn.posting ++ rest → c ∈ turns.filterMap Turn.call? → ∃ k p given answer,
        CalledAt bindings x args line memos₀ s₀ k p given answer ∧ c = ⟨p.id, given⟩ := by
    intro turns memos s rest hc hl hmem
    obtain ⟨t, ht, hcall⟩ := List.mem_filterMap.1 hmem
    cases t with
    | skipped p => cases hcall
    | ran p given outcome =>
      cases hcall
      obtain ⟨before, after, hturns⟩ := List.append_of_mem ht
      exact ⟨_, p, given, _, calledAt_of_course hc hturns hl, rfl⟩
  rcases validate_cases bindings x args line memos₀ s₀ with
    ⟨turns, memos, s, hc, hl, hcalls, -⟩ |
    ⟨turns, memos, s, p, rest, fault, calls, memos', s', hc, hl, hm, ha, hcalls, -⟩
  · rw [hcalls] at h
    exact hturn hc (by rw [List.append_nil]; exact hl) h
  · rw [hcalls] at h
    rcases List.mem_append.1 h with h | h
    · exact hturn hc hl h
    · cases hs : p.rule.select (args.getD ∅) with
      | error fault =>
        rw [attempt_of_unselected hs] at ha
        cases ha
        cases h
      | ok given =>
        rcases hi : p.rule.invoke (bindings.get? p.id) x given (memos.of p.id) s with
          ⟨answer, memo, s''⟩
        rw [attempt_of_invoked hs hi, Attempt.mk.injEq] at ha
        obtain ⟨-, rfl, -⟩ := ha
        exact ⟨turns.length, p, given, answer, ⟨⟨turns, rest, _, _, _, _, hc, hl, rfl, hm, hi⟩, hs⟩,
          List.mem_singleton.1 h⟩

theorem mem_calls_of_calledAt (h : CalledAt bindings x args line memos₀ s₀ k p given answer) :
    ⟨p.id, given⟩ ∈ (validate bindings x args line memos₀ s₀).calls := by
  obtain ⟨turns, rest, memos, s, memo, s', hc, rfl, -, hm, hi⟩ := h.reached
  show _ ∈ (validateFrom _ _ _ _ _ _ _ _).calls
  rw [validateFrom_of_course hc]
  apply List.mem_append_right
  apply (first_call_of_attempt hm (attempt_of_invoked h.selected hi)).subset
  exact List.mem_singleton_self _

theorem mem_calls_iff {c : Call} : c ∈ (validate bindings x args line memos₀ s₀).calls ↔
    ∃ k p given answer, CalledAt bindings x args line memos₀ s₀ k p given answer ∧
      c = ⟨p.id, given⟩ := by
  refine ⟨exists_of_mem_calls, ?_⟩
  rintro ⟨k, p, given, answer, h, rfl⟩
  exact mem_calls_of_calledAt h

/-! ## Losses at a place -/

theorem turn_of_calledAt {outcome : Outcome} {rest : List (Posting ι)}
    (h : CalledAt bindings x args line memos₀ s₀ k p given (.ok outcome))
    (hc : Course bindings x (args.getD ∅) memos₀ s₀ turns memos s)
    (hl : line = turns.map Turn.posting ++ rest) (hk : k < turns.length) :
    .ran p given outcome ∈ turns := by
  obtain ⟨front, rest', _, _, _, _, hfront, hl', rfl, hm, hi⟩ := h.reached
  obtain ⟨t, after, hturns, ⟨-, hmeets⟩ | ⟨_, _, _, _, rfl, hs, hi', -⟩⟩ :=
    next_turn hfront hc (hl'.symm.trans hl) hk
  · rw [hm] at hmeets
    cases hmeets
  · cases h.selected.symm.trans hs
    cases hi.symm.trans hi'
    rw [hturns]
    simp

theorem course_of_calledAt {outcome : Outcome}
    (h : CalledAt bindings x args line memos₀ s₀ k p given (.ok outcome))
    (hd : outcome.isDeferred = false) : ∃ front rest memos s, front.length = k ∧
      line = (front ++ [.ran p given outcome]).map Turn.posting ++ rest ∧
      Course bindings x (args.getD ∅) memos₀ s₀ (front ++ [.ran p given outcome]) memos s := by
  obtain ⟨front, rest, _, _, _, _, hc, hl, hlen, hm, hi⟩ := h.reached
  exact ⟨front, rest, _, _, hlen, by simp [hl, Turn.posting], .run hc hm h.selected hi hd⟩

/-- What a rule has lost at one place, no rule depends on that is called at a later place. -/
theorem not_meets_of_calledAt {fields : NameSet} {report : Report}
    (hp : CalledAt bindings x args line memos₀ s₀ i p given (.ok (.discarding fields report)))
    (hq : CalledAt bindings x args line memos₀ s₀ j q given' answer) (hij : i < j) :
    (bindings.dependencies q.id).meets fields = false := by
  obtain ⟨turns, rest, _, _, _, _, hc, hl, rfl, hm, -⟩ := hq.reached
  refine (Bool.not_eq_true _).mp fun hmeets => ?_
  rw [Turn.meets_lostBy.2 ⟨_, turn_of_calledAt hp hc hl hij, hmeets⟩] at hm
  cases hm

end

end Vetting
