import Mathlib.Data.List.Induction
import Vetting.Proofs.Lists
import Vetting.Proofs.Rule.Invocation
import Vetting.Proofs.Validation.Step

/-!
# The course of a validation

The rules of a line take their turns: each is skipped, or is called and comes to
an outcome. A course is the turns of a line, or of the front of one, where a
rule is called exactly when it depends on no field that a turn before it has
lost. It says nothing of how a run goes on: `validateFrom_of_course` tells that
a run passes through each course of its line, and `course_or_halt` that a line
has a course to its end unless some rule halts the run on the way.
-/

namespace Vetting

namespace Outcome

theorem verdict_of_not_deferred {o : Outcome} (h : o.isDeferred = false) (rule : String) :
    o.verdict rule = .ok (o.report?, o.lost) := by
  cases o with
  | deferred d => cases h
  | _ => rfl

end Outcome

inductive Turn (ι : Type) where
  | skipped (posting : Posting ι)
  | ran (posting : Posting ι) (given : Arguments) (outcome : Outcome)

namespace Turn

variable {ι : Type}

def posting : Turn ι → Posting ι
  | skipped p => p
  | ran p _ _ => p

def isRun : Turn ι → Bool
  | skipped _ => false
  | ran .. => true

def report? : Turn ι → Option Report
  | skipped _ => none
  | ran _ _ outcome => outcome.report?

def lost : Turn ι → NameSet
  | skipped _ => ∅
  | ran _ _ outcome => outcome.lost

def call? : Turn ι → Option Call
  | skipped _ => none
  | ran p given _ => some ⟨p.id, given⟩

def event {σ : Type} (bindings : Bindings σ) : Turn ι → Event
  | skipped p => .skipping p.rule.name (bindings.dependencies p.id)
  | ran p _ _ => .running p.rule.name

def messagesAt (path : List String) (t : Turn ι) : List String :=
  (t.report?.map (·.messagesAt path)).getD []

def lostBy (turns : List (Turn ι)) : NameSet := turns.foldl (fun lost t => lost ∪ t.lost) ∅

def reports (turns : List (Turn ι)) : List Report := turns.filterMap report?

def gathered (turns : List (Turn ι)) : Option Report :=
  turns.foldl (fun r t => gatherWith r t.report?) none

theorem lostBy_append (turns : List (Turn ι)) (t : Turn ι) :
    lostBy (turns ++ [t]) = lostBy turns ∪ t.lost :=
  List.foldl_concat (fun lost (t : Turn ι) => lost ∪ t.lost) ∅ t turns

theorem gathered_append (turns : List (Turn ι)) (t : Turn ι) :
    gathered (turns ++ [t]) = gatherWith (gathered turns) t.report? :=
  List.foldl_concat (fun r (t : Turn ι) => gatherWith r t.report?) none t turns

theorem mem_lostBy {a : String} {turns : List (Turn ι)} :
    a ∈ lostBy turns ↔ ∃ t ∈ turns, a ∈ t.lost := by
  have key : ∀ (turns : List (Turn ι)) (s : NameSet),
      a ∈ turns.foldl (fun lost t => lost ∪ t.lost) s ↔ a ∈ s ∨ ∃ t ∈ turns, a ∈ t.lost := by
    intro turns
    induction turns with
    | nil => simp
    | cons t turns ih => intro s; rw [List.foldl_cons, ih]; simp [or_assoc]
  unfold lostBy
  rw [key turns ∅]
  simp [NameSet.not_mem_empty]

theorem meets_lostBy {names : NameSet} {turns : List (Turn ι)} :
    names.meets (lostBy turns) = true ↔ ∃ t ∈ turns, names.meets t.lost = true := by
  simp only [NameSet.meets_iff, mem_lostBy]
  constructor
  · rintro ⟨a, ha, t, ht, hlost⟩
    exact ⟨t, ht, a, ha, hlost⟩
  · rintro ⟨t, ht, a, ha, hlost⟩
    exact ⟨a, ha, t, ht, hlost⟩

theorem mem_reports {r : Report} {turns : List (Turn ι)} :
    r ∈ reports turns ↔ ∃ t ∈ turns, t.report? = some r := List.mem_filterMap

theorem flatMap_reports (path : List String) (turns : List (Turn ι)) :
    (reports turns).flatMap (·.messagesAt path) = turns.flatMap (messagesAt path) := by
  induction turns with
  | nil => rfl
  | cons t turns ih =>
    rw [List.flatMap_cons, ← ih]
    unfold reports messagesAt
    rw [List.filterMap_cons]
    cases t.report? <;> rfl

end Turn

theorem getD_gatherWith (gathered report : Option Report) :
    (gatherWith gathered report).getD ∅ = (gathered.getD ∅).merge (report.getD ∅) := by
  cases report with
  | none => exact (Report.merge_empty _).symm
  | some report =>
    cases gathered with
    | none => exact (Report.empty_merge report).symm
    | some r => rfl

theorem Turn.getD_gathered {ι : Type} (turns : List (Turn ι)) :
    (gathered turns).getD ∅ = Report.mergeAll (reports turns) := by
  have key : ∀ (turns : List (Turn ι)) (r : Option Report),
      (turns.foldl (fun r t => gatherWith r t.report?) r).getD ∅ =
        (reports turns).foldl Report.merge (r.getD ∅) := by
    intro turns
    induction turns with
    | nil => intro r; rfl
    | cons t turns ih =>
      intro r
      unfold reports at ih ⊢
      rw [List.foldl_cons, ih, getD_gatherWith, List.filterMap_cons]
      cases t.report? with
      | none => rw [Option.getD_none, Report.merge_empty]
      | some report => rfl
  exact key turns none

section
variable {σ ι : Type}

/-- The turns of the front of some line, taken from `memos₀` and `s₀` on, and the memory and the
state that they lead to. -/
inductive Course (bindings : Bindings σ) (x : ι) (args : Arguments) (memos₀ : Memos) (s₀ : σ) :
    List (Turn ι) → Memos → σ → Prop
  | start : Course bindings x args memos₀ s₀ [] memos₀ s₀
  | skip {turns : List (Turn ι)} {memos : Memos} {s : σ} (p : Posting ι) :
      Course bindings x args memos₀ s₀ turns memos s →
      (bindings.dependencies p.id).meets (Turn.lostBy turns) = true →
      Course bindings x args memos₀ s₀ (turns ++ [.skipped p]) memos s
  | run {turns : List (Turn ι)} {memos : Memos} {s s' : σ} {p : Posting ι} {given : Arguments}
      {outcome : Outcome} {memo : Memo} :
      Course bindings x args memos₀ s₀ turns memos s →
      (bindings.dependencies p.id).meets (Turn.lostBy turns) = false →
      p.rule.select args = .ok given →
      p.rule.invoke (bindings.get? p.id) x given (memos.of p.id) s = (.ok outcome, memo, s') →
      outcome.isDeferred = false →
      Course bindings x args memos₀ s₀ (turns ++ [.ran p given outcome]) (memos.set p.id memo) s'

variable {bindings : Bindings σ} {x : ι} {args : Arguments} {memos₀ memos : Memos} {s₀ s : σ}
  {turns : List (Turn ι)}

/-! ## Runs pass through courses -/

theorem attempt_of_run {p : Posting ι} {given : Arguments} {outcome : Outcome} {memo : Memo}
    {s' : σ} (hs : p.rule.select args = .ok given)
    (hi : p.rule.invoke (bindings.get? p.id) x given (memos.of p.id) s = (.ok outcome, memo, s'))
    (hd : outcome.isDeferred = false) :
    attempt bindings x args p memos s =
      ⟨.ok (outcome.report?, outcome.lost), [⟨p.id, given⟩], memos.set p.id memo, s'⟩ := by
  rw [attempt_of_invoked hs hi]
  show Attempt.mk (outcome.verdict p.rule.name) _ _ _ = _
  rw [Outcome.verdict_of_not_deferred hd]

theorem validateFrom_of_course (h : Course bindings x args memos₀ s₀ turns memos s) :
    ∀ rest : List (Posting ι),
      validateFrom bindings x args (turns.map Turn.posting ++ rest) none ∅ memos₀ s₀ =
        (validateFrom bindings x args rest (Turn.gathered turns) (Turn.lostBy turns) memos s).after
          (turns.map (Turn.event bindings)) (turns.filterMap Turn.call?) := by
  induction h with
  | start => intro rest; rfl
  | skip p _ hm ih =>
    intro rest
    rw [List.map_append, List.append_assoc, ih, List.map_singleton, List.singleton_append]
    show (validateFrom bindings x args (p :: rest) _ _ _ _).after _ _ = _
    rw [validateFrom_skip hm, Run.after_after, Turn.gathered_append, Turn.lostBy_append]
    simp only [Turn.lost, Turn.report?, NameSet.union_empty, gatherWith, List.map_append,
      List.filterMap_append]
    rfl
  | run _ hm hs hi hd ih =>
    rename_i p given outcome memo _
    intro rest
    rw [List.map_append, List.append_assoc, ih, List.map_singleton, List.singleton_append]
    show (validateFrom bindings x args (p :: rest) _ _ _ _).after _ _ = _
    rw [validateFrom_run hm (attempt_of_run hs hi hd), Run.after_after, Turn.gathered_append,
      Turn.lostBy_append, List.map_append, List.filterMap_append]
    rfl

theorem validate_of_course {args : Option Arguments}
    (h : Course bindings x (args.getD ∅) memos₀ s₀ turns memos s) :
    validate bindings x args (turns.map Turn.posting) memos₀ s₀ =
      (conclude (Turn.gathered turns) memos s).after
        (turns.map (Turn.event bindings)) (turns.filterMap Turn.call?) := by
  have := validateFrom_of_course h []
  rw [List.append_nil] at this
  exact this

/-! ## How a course goes on -/

theorem select_error {r : RuleInfo} {fault : Fault} (h : r.select args = .error fault) :
    fault.isInvalid = false := by
  unfold RuleInfo.select at h
  split at h
  · cases h
  · split at h
    · cases h; rfl
    · cases h

theorem course_step (p : Posting ι) (h : Course bindings x args memos₀ s₀ turns memos s) :
    (∃ t memos' s', t.posting = p ∧ Course bindings x args memos₀ s₀ (turns ++ [t]) memos' s') ∨
      (bindings.dependencies p.id).meets (Turn.lostBy turns) = false ∧
        ∃ fault, (attempt bindings x args p memos s).verdict = .error fault ∧
          fault.isInvalid = false := by
  cases hm : (bindings.dependencies p.id).meets (Turn.lostBy turns) with
  | true => exact Or.inl ⟨.skipped p, memos, s, rfl, .skip p h hm⟩
  | false =>
    cases hs : p.rule.select args with
    | error fault =>
      refine Or.inr ⟨rfl, fault, ?_, select_error hs⟩
      rw [attempt_of_unselected hs]
    | ok given =>
      rcases hi : p.rule.invoke (bindings.get? p.id) x given (memos.of p.id) s with
        ⟨outcome, memo, s'⟩
      cases outcome with
      | error fault =>
        refine Or.inr ⟨rfl, fault, ?_, invoke_error hi⟩
        rw [attempt_of_invoked hs hi]
        rfl
      | ok outcome =>
        cases hd : outcome.isDeferred with
        | false => exact Or.inl ⟨.ran p given outcome, _, _, rfl, .run h hm hs hi hd⟩
        | true =>
          cases outcome with
          | deferred d =>
            refine Or.inr ⟨rfl, .deferred { d with rule := some p.rule.name }, ?_, rfl⟩
            rw [attempt_of_invoked hs hi]
            rfl
          | _ => cases hd

/-- A line has a course, or a course up to a rule that ends the run. -/
theorem course_or_halt (bindings : Bindings σ) (x : ι) (args : Arguments) (memos₀ : Memos) (s₀ : σ)
    (line : List (Posting ι)) :
    (∃ turns memos s, Course bindings x args memos₀ s₀ turns memos s ∧
      turns.map Turn.posting = line) ∨
    ∃ turns memos s p rest fault, Course bindings x args memos₀ s₀ turns memos s ∧
      line = turns.map Turn.posting ++ p :: rest ∧
      (bindings.dependencies p.id).meets (Turn.lostBy turns) = false ∧
      (attempt bindings x args p memos s).verdict = .error fault ∧ fault.isInvalid = false := by
  induction line using List.reverseRecOn with
  | nil => exact Or.inl ⟨[], memos₀, s₀, .start, rfl⟩
  | append_singleton line p ih =>
    rcases ih with ⟨turns, memos, s, hc, hl⟩ | ⟨turns, memos, s, q, rest, fault, hc, hl, hhalts⟩
    · rcases course_step p hc with ⟨t, memos', s', ht, hc'⟩ | ⟨hm, fault, hf, hi⟩
      · exact Or.inl ⟨_, memos', s', hc', by simp [ht, hl]⟩
      · exact Or.inr ⟨turns, memos, s, p, [], fault, hc, by rw [hl], hm, hf, hi⟩
    · exact Or.inr ⟨turns, memos, s, q, rest ++ [p], fault, hc, by simp [hl], hhalts⟩

theorem result_of_halt {p : Posting ι} {fault : Fault}
    (h : Course bindings x args memos₀ s₀ turns memos s)
    (hm : (bindings.dependencies p.id).meets (Turn.lostBy turns) = false)
    (hf : (attempt bindings x args p memos s).verdict = .error fault) (rest : List (Posting ι)) :
    (validateFrom bindings x args (turns.map Turn.posting ++ p :: rest) none ∅ memos₀ s₀).result =
      .error fault := by
  rcases ha : attempt bindings x args p memos s with ⟨verdict, calls, memos', s'⟩
  rw [ha] at hf
  cases hf
  rw [validateFrom_of_course h, validateFrom_halt hm ha]
  rfl

/-! ## What a course tells of its turns -/

theorem isRun_iff_of_course {args : Arguments} (h : Course bindings x args memos₀ s₀ turns memos s) :
    ∀ {before after : List (Turn ι)} {t : Turn ι}, turns = before ++ t :: after →
      (t.isRun = true ↔ (bindings.dependencies t.posting.id).meets (Turn.lostBy before) = false) := by
  induction h with
  | start => intro before after t h; simp at h
  | skip p _ hm ih =>
    intro before after t h
    rcases concat_eq_append_cons h with ⟨-, rfl, rfl⟩ | ⟨rest, -, hrest⟩
    · simp [Turn.isRun, Turn.posting, hm]
    · exact ih hrest
  | run _ hm _ _ _ ih =>
    intro before after t h
    rcases concat_eq_append_cons h with ⟨-, rfl, rfl⟩ | ⟨rest, -, hrest⟩
    · simp [Turn.isRun, Turn.posting, hm]
    · exact ih hrest

theorem invoked_of_course {args : Arguments} (h : Course bindings x args memos₀ s₀ turns memos s) :
    ∀ {p : Posting ι} {given : Arguments} {outcome : Outcome},
      Turn.ran p given outcome ∈ turns → p.rule.select args = .ok given ∧
        outcome.isDeferred = false ∧ ∃ memo s memo' s',
          p.rule.invoke (bindings.get? p.id) x given memo s = (.ok outcome, memo', s') := by
  induction h with
  | start => intro p given outcome h; cases h
  | skip p _ _ ih =>
    intro q given outcome h
    rcases List.mem_append.1 h with h | h
    · exact ih h
    · simp at h
  | run _ _ hs hi hd ih =>
    intro q given outcome h
    rcases List.mem_append.1 h with h | h
    · exact ih h
    · rw [List.mem_singleton] at h
      cases h
      exact ⟨hs, hd, _, _, _, _, hi⟩

theorem course_last {args : Arguments} {all : List (Turn ι)} {t : Turn ι}
    (h : Course bindings x args memos₀ s₀ all memos s) (hall : all = turns ++ [t]) :
    (t.isRun = false ∧ Course bindings x args memos₀ s₀ turns memos s ∧
      (bindings.dependencies t.posting.id).meets (Turn.lostBy turns) = true) ∨
    ∃ p given outcome memo memos₁ s₁, t = .ran p given outcome ∧
      Course bindings x args memos₀ s₀ turns memos₁ s₁ ∧
      (bindings.dependencies p.id).meets (Turn.lostBy turns) = false ∧
      p.rule.select args = .ok given ∧
      p.rule.invoke (bindings.get? p.id) x given (memos₁.of p.id) s₁ = (.ok outcome, memo, s) ∧
      memos = memos₁.set p.id memo := by
  cases h with
  | start => simp at hall
  | skip p h hm =>
    obtain ⟨rfl, ht⟩ := List.append_inj' hall rfl
    cases ht
    exact Or.inl ⟨rfl, h, hm⟩
  | run h hm hs hi hd =>
    obtain ⟨rfl, ht⟩ := List.append_inj' hall rfl
    cases ht
    exact Or.inr ⟨_, _, _, _, _, _, rfl, h, hm, hs, hi, rfl⟩

theorem last_of_map_posting {turns' : List (Turn ι)} {t : Turn ι}
    (h : turns'.map Turn.posting = (turns ++ [t]).map Turn.posting) :
    ∃ front u, turns' = front ++ [u] ∧ front.map Turn.posting = turns.map Turn.posting ∧
      u.posting = t.posting := by
  rw [List.map_append] at h
  obtain ⟨front, last, rfl, hfront, hlast⟩ := List.map_eq_append_iff.1 h
  obtain ⟨u, rfl, hu⟩ := List.map_eq_singleton_iff.1 hlast
  exact ⟨front, u, rfl, hfront, hu⟩

theorem course_unique {args : Arguments} (h : Course bindings x args memos₀ s₀ turns memos s) :
    ∀ {turns' : List (Turn ι)} {memos' : Memos} {s' : σ},
      Course bindings x args memos₀ s₀ turns' memos' s' →
      turns'.map Turn.posting = turns.map Turn.posting →
      turns' = turns ∧ memos' = memos ∧ s' = s := by
  -- the other course is taken apart at its last turn, which is of the same rule
  induction h with
  | start =>
    intro turns' memos' s' h' hl
    cases h' with
    | start => exact ⟨rfl, rfl, rfl⟩
    | skip => simp at hl
    | run => simp at hl
  | skip p h hm ih =>
    intro turns' memos' s' h' hl
    obtain ⟨front, t, rfl, hfront, ht⟩ := last_of_map_posting hl
    rcases course_last h' rfl with ⟨hrun, hc, _⟩ | ⟨q, _, _, _, _, _, rfl, hc, hq, _⟩
    · obtain ⟨rfl, rfl, rfl⟩ := ih hc hfront
      cases t with
      | skipped q => cases ht; exact ⟨rfl, rfl, rfl⟩
      | ran => cases hrun
    · obtain ⟨rfl, _, _⟩ := ih hc hfront
      cases ht
      rw [hm] at hq
      cases hq
  | run h hm hs hi hd ih =>
    intro turns' memos' s' h' hl
    obtain ⟨front, t, rfl, hfront, ht⟩ := last_of_map_posting hl
    rcases course_last h' rfl with ⟨_, hc, hp⟩ | ⟨q, _, _, _, _, _, rfl, hc, _, hs', hi', rfl⟩
    · obtain ⟨rfl, _, _⟩ := ih hc hfront
      rw [ht] at hp
      exact absurd (hm.symm.trans hp) (by decide)
    · obtain ⟨rfl, rfl, rfl⟩ := ih hc hfront
      cases ht
      cases hs.symm.trans hs'
      cases hi.symm.trans hi'
      exact ⟨rfl, rfl, rfl⟩

/-! ## The end of a run -/

theorem conclude_calls (r : Option Report) (memos : Memos) (s : σ) :
    (conclude r memos s).calls = [] ∧ (conclude r memos s).memos = memos ∧
      (conclude r memos s).state = s := by
  unfold conclude
  cases r with
  | none => exact ⟨rfl, rfl, rfl⟩
  | some report => cases h : report.isEmpty <;> simp [h]

theorem conclude_result (r : Option Report) (memos : Memos) (s : σ) :
    (conclude r memos s).result =
      if (r.getD ∅).isEmpty then .ok () else .error (.invalid (r.getD ∅)) := by
  unfold conclude
  cases r with
  | none => rfl
  | some report => cases h : report.isEmpty <;> simp [h]

structure TurnsOf (bindings : Bindings σ) (x : ι) (args : Option Arguments)
    (line : List (Posting ι)) (memos : Memos) (s : σ) (turns : List (Turn ι)) : Prop where
  course : Course bindings x (args.getD ∅) memos s turns
    (validate bindings x args line memos s).memos (validate bindings x args line memos s).state
  postings : turns.map Turn.posting = line
  calls : (validate bindings x args line memos s).calls = turns.filterMap Turn.call?
  isRun_iff : ∀ {before after : List (Turn ι)} {t : Turn ι}, turns = before ++ t :: after →
    (t.isRun = true ↔ (bindings.dependencies t.posting.id).meets (Turn.lostBy before) = false)

variable {args : Option Arguments} {line : List (Posting ι)}

theorem result_of_course (h : Course bindings x (args.getD ∅) memos₀ s₀ turns memos s) :
    (validate bindings x args (turns.map Turn.posting) memos₀ s₀).result =
      if (Report.mergeAll (Turn.reports turns)).isEmpty then .ok ()
      else .error (.invalid (Report.mergeAll (Turn.reports turns))) := by
  rw [validate_of_course h, ← Turn.getD_gathered]
  exact conclude_result _ _ _

/-- A run that does not end with a fault of another kind has run through the course of its line. -/
theorem exists_turnsOf (h : ∀ fault, (validate bindings x args line memos₀ s₀).result = .error fault →
    fault.isInvalid = true) : ∃ turns, TurnsOf bindings x args line memos₀ s₀ turns := by
  rcases course_or_halt bindings x (args.getD ∅) memos₀ s₀ line with
    ⟨turns, memos, s, hc, hl⟩ | ⟨turns, memos, s, p, rest, fault, hc, hl, hm, hf, hi⟩
  · subst hl
    obtain ⟨h₁, h₂, h₃⟩ := conclude_calls (Turn.gathered turns) memos s
    refine ⟨turns, ?_, rfl, ?_, isRun_iff_of_course hc⟩
    · rw [validate_of_course hc]
      show Course bindings x (args.getD ∅) memos₀ s₀ turns (conclude _ memos s).memos
        (conclude _ memos s).state
      rw [h₂, h₃]
      exact hc
    · rw [validate_of_course hc]
      show _ ++ (conclude _ memos s).calls = _
      rw [h₁, List.append_nil]
  · have hr := result_of_halt hc hm hf rest
    rw [← hl] at hr
    -- a rule that halts the run leaves a fault of another kind
    rw [h fault hr] at hi
    cases hi

theorem skipped_iff (ht : TurnsOf bindings x args line memos₀ s₀ turns) :
    (∃ t ∈ turns, t.isRun = false) ↔ ∃ before u after, turns = before ++ u :: after ∧
      ∃ t ∈ after, (bindings.dependencies t.posting.id).meets u.lost = true := by
  constructor
  · rintro ⟨t, hmem, hskip⟩
    obtain ⟨front, rest, rfl⟩ := List.append_of_mem hmem
    have hmeets := mt (ht.isRun_iff rfl).2 (Bool.not_eq_true _ ▸ hskip)
    obtain ⟨u, hu, hlost⟩ := Turn.meets_lostBy.1 ((Bool.not_eq_false _).mp hmeets)
    obtain ⟨before, between, rfl⟩ := List.append_of_mem hu
    exact ⟨before, u, between ++ t :: rest, by simp, t, by simp, hlost⟩
  · rintro ⟨before, u, after, rfl, t, hafter, hlost⟩
    obtain ⟨between, rest, rfl⟩ := List.append_of_mem hafter
    have hsplit : before ++ u :: (between ++ t :: rest) =
        (before ++ u :: between) ++ t :: rest := by simp
    refine ⟨t, by simp, (Bool.not_eq_true _).mp fun hrun => ?_⟩
    have hmeets : (bindings.dependencies t.posting.id).meets
        (Turn.lostBy (before ++ u :: between)) = true :=
      Turn.meets_lostBy.2 ⟨u, by simp, hlost⟩
    rw [(ht.isRun_iff hsplit).1 hrun] at hmeets
    cases hmeets

theorem turnsOf_of_ok (h : (validate bindings x args line memos₀ s₀).result = .ok ()) :
    ∃ turns, TurnsOf bindings x args line memos₀ s₀ turns ∧ ∀ r ∈ Turn.reports turns, r = ∅ := by
  obtain ⟨turns, ht⟩ := exists_turnsOf fun fault hf => by rw [h] at hf; cases hf
  refine ⟨turns, ht, ?_⟩
  rw [← ht.postings, result_of_course ht.course] at h
  split at h
  · rename_i he
    exact Report.mergeAll_eq_empty.1 (Report.isEmpty_iff.1 he)
  · cases h

theorem turnsOf_of_invalid {e : Report}
    (h : (validate bindings x args line memos₀ s₀).result = .error (.invalid e)) :
    ∃ turns, TurnsOf bindings x args line memos₀ s₀ turns ∧
      e = Report.mergeAll (Turn.reports turns) ∧ e ≠ ∅ := by
  obtain ⟨turns, ht⟩ := exists_turnsOf fun fault hf => by rw [h] at hf; cases hf; rfl
  refine ⟨turns, ht, ?_⟩
  rw [← ht.postings, result_of_course ht.course] at h
  split at h
  · cases h
  · rename_i he
    cases h
    exact ⟨rfl, fun h => he (Report.isEmpty_iff.2 h)⟩

end

end Vetting
