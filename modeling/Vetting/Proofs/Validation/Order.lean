import Mathlib.Data.List.Nodup
import Vetting.Proofs.Field.Steady
import Vetting.Proofs.Report.Pointwise
import Vetting.Proofs.Rule.Layers
import Vetting.Proofs.Validation.Halt
import Vetting.Proofs.Validation.Memory

/-!
# Lines in another order

Rules that discard nothing and do not end the run are all called, in whatever
order they stand. Each reports the same at every place of the line, since the
label of its target is the one that is remembered, or the one that is found
whenever it is looked for. Merging does depend on the order; but it keeps the
findings, and whether there is anything to report, and for these the order does
not matter.
-/

namespace Vetting

/-- The rule leaves the run to the rules after it: it loses nothing, has its arguments, and its
check neither asserts nor defers. -/
structure Rule.Plain {ι : Type} (r : Rule ι) (x : ι) (args : Arguments) : Prop where
  discards : r.discards = []
  supplied : args.isEmpty = true ∨ ∀ name ∈ r.params, args.contains name = true
  not_breached : ∀ text, r.check.call x (args.restrict r.params) ≠ .error (.breach text)
  not_deferred : ∀ d, r.check.call x (args.restrict r.params) ≠ .error (.deferred d)

section
variable {σ ι : Type}

/-- Places of one identity are places of one rule. -/
def Identified (line : List (Posting ι)) : Prop :=
  ∀ p ∈ line, ∀ q ∈ line, p.id = q.id → p.rule = q.rule

/-- The states that come about when rules of the line ask for the shapes of their owners. -/
inductive Asked (bindings : Bindings σ) (line : List (Posting ι)) (s₀ : σ) : σ → Prop
  | start : Asked bindings line s₀ s₀
  | ask {s : σ} {p : Posting ι} : Asked bindings line s₀ s → p ∈ line →
      Asked bindings line s₀ (askedOf (bindings.get? p.id) s)

/-- However often the rules of the line ask, they are answered as at first. -/
def Steadfast (bindings : Bindings σ) (line : List (Posting ι)) (s₀ : σ) : Prop :=
  ∀ s, Asked bindings line s₀ s → ∀ p ∈ line, ∀ b, bindings.get? p.id = some b →
    b.shape s = b.shape s₀

def Posting.call (args : Arguments) (p : Posting ι) : Call := ⟨p.id, args.restrict p.rule.params⟩

def Posting.failure? (bindings : Bindings σ) (x : ι) (args : Arguments) (memos : Memos) (s : σ)
    (p : Posting ι) : Option Report :=
  p.rule.failure (bindings.get? p.id) x (args.restrict p.rule.params) (memos.of p.id) s

/-- The rules of the line place their reports as at first, and the sources were asked only. -/
structure Placed (bindings : Bindings σ) (line : List (Posting ι)) (memos₀ : Memos) (s₀ : σ)
    (memos : Memos) (s : σ) : Prop where
  asked : Asked bindings line s₀ s
  label : ∀ p ∈ line, ∀ target, p.rule.target = some target →
    p.rule.labelWith (bindings.get? p.id) target (memos.of p.id) s =
      p.rule.labelWith (bindings.get? p.id) target (memos₀.of p.id) s₀

end

section
variable {σ ι : Type} {r : Rule ι} {binding : Option (Binding σ)} {x : ι} {args : Arguments}
  {memo memo' : Memo} {s s' : σ} {outcome : Outcome} {report : Report} {fault : Fault}

/-! ## Rules that let the run go on -/

theorem Rule.Plain.not_halts (h : r.Plain x args) : ¬ r.Halts x args fault := by
  intro hhalts
  cases hhalts with
  | lacking hfirst =>
    obtain ⟨hne, hname, hnone⟩ := hfirst.1
    rcases h.supplied with hempty | hall
    · rw [hne] at hempty
      cases hempty
    · have hcontains := hall _ hname
      rw [NameMap.contains, hnone] at hcontains
      cases hcontains
  | asserting _ hc => exact h.not_breached _ hc
  | deferring _ hc => exact h.not_deferred _ hc

theorem placing_of_no_discards (hd : r.discards = [])
    (h : r.placing binding report memo s = (outcome, memo', s')) :
    outcome.lost = ∅ ∧ (s' = s ∨ s' = askedOf binding s) ∧ ∀ target, r.target = some target →
      r.labelWith binding target memo' s = r.labelWith binding target memo s := by
  unfold Rule.placing at h
  cases ht : r.target with
  | none =>
    simp only [ht] at h
    rcases discarding_cases h with ⟨rfl, -, rfl, rfl⟩ | ⟨-, hne⟩
    · exact ⟨rfl, Or.inl rfl, nofun⟩
    · exact absurd hd hne
  | some target =>
    rcases hl : r.targetLabel binding target memo s with ⟨answer, memo₁, s₁⟩
    obtain ⟨-, -, -, hstate⟩ := targetLabel_eq_labelWith hl
    have hasked : s₁ = s ∨ s₁ = askedOf binding s := by
      rw [hstate]
      by_cases hm : memo.label.isNone = true
      · simp [hm]
      · simp [hm]
    have hlabel : ∀ target', some target = some target' →
        r.labelWith binding target' memo₁ s = r.labelWith binding target' memo s := by
      intro target' htarget
      cases htarget
      exact labelWith_of_targetLabel hl
    simp only [ht, hl] at h
    cases answer with
    | error fault =>
      cases h
      exact ⟨rfl, hasked, hlabel⟩
    | ok label =>
      rcases discarding_cases h with ⟨rfl, -, rfl, rfl⟩ | ⟨-, hne⟩
      · exact ⟨rfl, hasked, hlabel⟩
      · exact absurd hd hne

theorem invoke_of_no_discards (hd : r.discards = [])
    (h : r.invoke binding x args memo s = (.ok outcome, memo', s')) :
    outcome.lost = ∅ ∧ (s' = s ∨ s' = askedOf binding s) ∧ ∀ target, r.target = some target →
      r.labelWith binding target memo' s = r.labelWith binding target memo s := by
  unfold Rule.invoke at h
  split at h
  · cases h
    exact ⟨rfl, Or.inl rfl, fun _ _ => rfl⟩
  · cases h
    exact ⟨rfl, Or.inl rfl, fun _ _ => rfl⟩
  · cases h
  · cases h
    exact ⟨rfl, Or.inl rfl, fun _ _ => rfl⟩
  · rename_i report _
    rcases hp : r.placing binding report memo s with ⟨outcome', memo₁, s₁⟩
    rw [hp] at h
    cases h
    exact placing_of_no_discards hd hp

end

section
variable {σ ι : Type} {bindings : Bindings σ} {x : ι} {line line' : List (Posting ι)}
  {memos₀ memos : Memos} {s₀ s s' : σ} {turns : List (Turn ι)} {p : Posting ι}

/-! ## Labels along a line -/

theorem Asked.trans (h : Asked bindings line s₀ s) (h' : Asked bindings line s s') :
    Asked bindings line s₀ s' := by
  induction h' with
  | start => exact h
  | ask _ hp ih => exact ih.ask hp

theorem Asked.mono (hsub : ∀ p ∈ line', p ∈ line) (h : Asked bindings line' s₀ s) :
    Asked bindings line s₀ s := by
  induction h with
  | start => exact .start
  | ask _ hp ih => exact ih.ask (hsub _ hp)

theorem Steadfast.of_asked (h : Steadfast bindings line s₀) (hs : Asked bindings line s₀ s)
    (hsub : ∀ p ∈ line', p ∈ line) : Steadfast bindings line' s := by
  intro s' hs' p hp b hb
  have hthen := h s' (hs.trans (hs'.mono hsub)) p (hsub p hp) b hb
  exact hthen.trans (h s hs p (hsub p hp) b hb).symm

theorem steadfast_of_offers {bindings : Bindings Schema} {s : Schema}
    (h : ∀ p ∈ line, ∀ b, bindings.get? p.id = some b → Schema.Offers b.shapes) :
    Steadfast bindings line s := by
  intro s' hs'
  induction hs' with
  | start =>
    intro p _ b _
    rfl
  | ask _ hq ih =>
    rename_i s' q _
    intro p hp b hb
    rw [← ih p hp b hb]
    cases hbq : bindings.get? q.id with
    | none => rfl
    | some b' => exact (h p hp b hb).answer_eq (h q hq b' hbq) b'.owner .reading

theorem Placed.refl (bindings : Bindings σ) (line : List (Posting ι)) (memos : Memos) (s : σ) :
    Placed bindings line memos s memos s :=
  ⟨.start, fun _ _ _ _ => rfl⟩

theorem Placed.failure?_eq (h : Placed bindings line memos₀ s₀ memos s) (hp : p ∈ line)
    (args : Arguments) :
    p.failure? bindings x args memos s = p.failure? bindings x args memos₀ s₀ :=
  failure_congr (h.label p hp)

theorem Placed.invoke {args : Arguments} {memo : Memo} {outcome : Outcome}
    (hsteady : Steadfast bindings line s₀) (hid : Identified line)
    (h : Placed bindings line memos₀ s₀ memos s) (hp : p ∈ line) (hd : p.rule.discards = [])
    (hi : p.rule.invoke (bindings.get? p.id) x args (memos.of p.id) s = (.ok outcome, memo, s')) :
    Placed bindings line memos₀ s₀ (memos.set p.id memo) s' := by
  obtain ⟨-, hstate, hlabel⟩ := invoke_of_no_discards hd hi
  have hasked : Asked bindings line s₀ s' := by
    rcases hstate with rfl | rfl
    · exact h.asked
    · exact h.asked.ask hp
  refine ⟨hasked, ?_⟩
  intro q hq target ht
  have hshape : ∀ b, bindings.get? q.id = some b → b.shape s' = b.shape s := by
    intro b hb
    rw [hsteady s' hasked q hq b hb, hsteady s h.asked q hq b hb]
  rw [labelWith_congr hshape, Memos.of_set, ← h.label q hq target ht]
  -- the memory of the rule is that of all its places
  by_cases hqp : q.id = p.id
  · rw [if_pos hqp, hid q hq p hp hqp, hqp]
    exact hlabel target (hid q hq p hp hqp ▸ ht)
  · rw [if_neg hqp]

/-! ## Runs of such lines -/

theorem course_of_plain {args : Arguments} (hplain : ∀ p ∈ line, p.rule.Plain x args)
    (hid : Identified line) (hsteady : Steadfast bindings line s₀)
    (h : Course bindings x args memos₀ s₀ turns memos s) (hmem : ∀ t ∈ turns, t.posting ∈ line) :
    Placed bindings line memos₀ s₀ memos s ∧ Turn.lostBy turns = ∅ ∧
      turns.filterMap Turn.call? = (turns.map Turn.posting).map (Posting.call args) ∧
      Turn.reports turns =
        (turns.map Turn.posting).filterMap (Posting.failure? bindings x args memos₀ s₀) := by
  induction h with
  | start => exact ⟨.refl bindings line memos₀ s₀, rfl, rfl, rfl⟩
  | skip p _ hm ih =>
    -- nothing is lost, so no rule is skipped
    obtain ⟨-, hlost, -⟩ := ih fun t ht => hmem t (List.mem_append_left _ ht)
    rw [hlost, NameSet.meets_empty] at hm
    cases hm
  | run _ _ hs hi _ ih =>
    rename_i p given outcome memo _ _ _
    obtain ⟨hplaced, hlost, hcalls, hreports⟩ := ih fun t ht => hmem t (List.mem_append_left _ ht)
    have hp : p ∈ line := hmem (.ran p given outcome) (by simp)
    have hd := (hplain p hp).discards
    have hgiven := (RuleInfo.select_eq_ok_iff.1 hs).2
    have hreport : outcome.report? = p.failure? bindings x args memos₀ s₀ := by
      rw [← hplaced.failure?_eq hp, report_of_invoke hi, hgiven]
      rfl
    refine ⟨hplaced.invoke hsteady hid hp hd hi, ?_, ?_, ?_⟩
    · have hnone : outcome.lost = ∅ := (invoke_of_no_discards hd hi).1
      rw [Turn.lostBy_append, hlost]
      show ∅ ∪ outcome.lost = ∅
      rw [hnone, NameSet.union_empty]
    · rw [List.filterMap_append, hcalls, hgiven]
      simp [Turn.call?, Turn.posting, Posting.call]
    · have hlast : [Turn.ran p given outcome].filterMap Turn.report? =
          [p].filterMap (Posting.failure? bindings x args memos₀ s₀) := by
        rw [List.filterMap_cons, List.filterMap_cons, ← hreport]
        rfl
      unfold Turn.reports at hreports ⊢
      rw [List.filterMap_append, hreports, hlast, List.map_append, List.filterMap_append]
      rfl

theorem turnsOf_of_plain {args : Option Arguments}
    (hplain : ∀ p ∈ line, p.rule.Plain x (args.getD ∅)) (bindings : Bindings σ) (memos : Memos)
    (s : σ) :
    ∃ turns, TurnsOf bindings x args line memos s turns := by
  apply exists_turnsOf
  intro fault hresult
  by_contra hinvalid
  rw [Bool.not_eq_true] at hinvalid
  obtain ⟨k, p, ⟨turns, ⟨-, -, rest, hline⟩, -⟩, hhalts⟩ :=
    result_eq_error_iff.1 ⟨hresult, hinvalid⟩
  have hp : p ∈ line := by simp [hline]
  exact (hplain p hp).not_halts hhalts

/-- The run of such a line in closed form: every rule is called, and the report is the merge of what
the rules report at first. -/
theorem validate_of_plain {args : Option Arguments}
    (hplain : ∀ p ∈ line, p.rule.Plain x (args.getD ∅)) (hid : Identified line)
    (hsteady : Steadfast bindings line s) (memos : Memos) :
    let run := validate bindings x args line memos s
    let report := Report.mergeAll
      (line.filterMap (Posting.failure? bindings x (args.getD ∅) memos s))
    Placed bindings line memos s run.memos run.state ∧
      run.calls = line.map (Posting.call (args.getD ∅)) ∧
      run.result = if report.isEmpty then .ok () else .error (.invalid report) := by
  intro run report
  obtain ⟨turns, ht⟩ := turnsOf_of_plain hplain bindings memos s
  have hmem : ∀ t ∈ turns, t.posting ∈ line := by
    intro t htmem
    rw [← ht.postings]
    exact List.mem_map_of_mem htmem
  obtain ⟨hplaced, -, hcalls, hreports⟩ := course_of_plain hplain hid hsteady ht.course hmem
  have hresult := result_of_course ht.course
  rw [ht.postings] at hcalls hreports hresult
  rw [hreports] at hresult
  exact ⟨hplaced, ht.calls.trans hcalls, hresult⟩

/-- Plain rules are all called in any order of the line, and the order decides neither whether the
validation ends well nor which findings it ends with. That is so for two runs from one situation,
and for a run and the next one. -/
theorem order_is_immaterial {args : Option Arguments} (hperm : line'.Perm line)
    (hplain : ∀ p ∈ line, p.rule.Plain x (args.getD ∅)) (hid : Identified line)
    (hsteady : Steadfast bindings line s) :
    let run := validate bindings x args line memos s
    ∀ memos' s', (memos' = memos ∧ s' = s) ∨ (memos' = run.memos ∧ s' = run.state) →
      let run' := validate bindings x args line' memos' s'
      run.calls = line.map (Posting.call (args.getD ∅)) ∧
      run'.calls = line'.map (Posting.call (args.getD ∅)) ∧
      ((run.result = .ok () ∧ run'.result = .ok ()) ∨
        ∃ e e', run.result = .error (.invalid e) ∧ run'.result = .error (.invalid e') ∧
          e'.findings.Perm e.findings) := by
  intro run memos' s' hstart run'
  obtain ⟨hplaced, hcalls, hresult⟩ := validate_of_plain hplain hid hsteady memos
  have hthen : Placed bindings line memos s memos' s' := by
    rcases hstart with ⟨rfl, rfl⟩ | ⟨rfl, rfl⟩
    · exact .refl bindings line memos' s'
    · exact hplaced
  have hsub : ∀ p ∈ line', p ∈ line := fun p hp => hperm.subset hp
  obtain ⟨-, hcalls', hresult'⟩ := validate_of_plain
    (fun p hp => hplain p (hsub p hp)) (fun p hp q hq => hid p (hsub p hp) q (hsub q hq))
    (hsteady.of_asked hthen.asked hsub) memos'
  -- from where the second run starts, the rules report as they did for the first
  have hfailures : line'.filterMap (Posting.failure? bindings x (args.getD ∅) memos' s') =
      line'.filterMap (Posting.failure? bindings x (args.getD ∅) memos s) := by
    apply List.filterMap_congr
    intro p hp
    exact hthen.failure?_eq (hsub p hp) _
  rw [hfailures] at hresult'
  obtain ⟨hfindings, hempty⟩ := Report.mergeAll_perm
    (hperm.filterMap (Posting.failure? bindings x (args.getD ∅) memos s))
  rw [hempty] at hresult'
  refine ⟨hcalls, hcalls', ?_⟩
  split at hresult
  · rename_i he
    rw [if_pos he] at hresult'
    exact Or.inl ⟨hresult, hresult'⟩
  · rename_i he
    rw [if_neg he] at hresult'
    exact Or.inr ⟨_, _, hresult, hresult', hfindings⟩

def reporting (id : RuleId) (name : String) (params : List String) (target : Option FieldRef)
    (refusal : Refusal) : Posting Unit where
  id := id
  rule := {
    name := name, params := .ofList params, reads := ∅, signature := .method
    check := .returning fun _ _ => .error refusal
    target := target, discards := [], owner := none }

def oneField : Schema :=
  { (∅ : Schema) with shapes := ⟨.ofList [("T", ⟨[⟨"f", "F", "f", false⟩]⟩)]⟩ }

/-- Of two targets, one is a field of the owner; the two rules look for them one after the other. -/
theorem order_is_immaterial_threeReports :
    let bindings : Bindings Schema := .ofList
      [(0, ⟨"T", ∅, Schema.memoised⟩), (1, ⟨"T", ∅, Schema.memoised⟩)]
    let line := [reporting 0 "placed" ["a"] (some "f") (.because "bad"),
      reporting 1 "misplaced" [] (some "g") (.because "worse"),
      reporting 2 "broken" ["a"] none (.trouble (.other "broken"))]
    let args : Option Arguments := some (.ofList [("a", .null), ("b", .null)])
    let run := validate bindings () args line ∅ oneField
    let run' := validate bindings () args line.reverse ∅ oneField
    run.calls.map Call.rule = [0, 1, 2] ∧ run'.calls.map Call.rule = [2, 1, 0] ∧
      ∃ e e', run.result = .error (.invalid e) ∧ run'.result = .error (.invalid e') ∧
        e'.findings.Perm e.findings ∧
        e.messages = ["Type 'T' has no field 'g'", "worse", "broken"] ∧
        e'.messages = ["broken", "Type 'T' has no field 'g'", "worse"] := by
  intro bindings line args run run'
  have hplain : ∀ p ∈ line, p.rule.Plain () (args.getD ∅) := by
    have hall : ∀ p ∈ line, ∀ name ∈ p.rule.params, (args.getD ∅).contains name = true := by
      decide
    intro p hp
    have hnames := hall p hp
    simp only [line, List.mem_cons, List.not_mem_nil, or_false] at hp
    rcases hp with rfl | rfl | rfl <;> exact ⟨rfl, Or.inr hnames, nofun, nofun⟩
  have hid : Identified line := by
    intro p hp q hq h
    rw [List.inj_on_of_nodup_map (by decide) hp hq h]
  have hsteady : Steadfast bindings line oneField := by
    apply steadfast_of_offers
    intro p hp b hb
    simp only [line, List.mem_cons, List.not_mem_nil, or_false] at hp
    rcases hp with rfl | rfl | rfl <;> cases hb
    · exact .memoised
    · exact .memoised
  obtain ⟨hcalls, hcalls', h⟩ := order_is_immaterial (List.reverse_perm line) hplain hid hsteady
    ∅ oneField (Or.inl ⟨rfl, rfl⟩)
  refine ⟨by rw [hcalls]; rfl, by rw [hcalls']; rfl, ?_⟩
  have hfails : run.result ≠ .ok () := nofun
  rcases h with ⟨hok, -⟩ | ⟨e, e', he, he', hperm⟩
  · exact absurd hok hfails
  · refine ⟨e, e', he, he', hperm, ?_, ?_⟩
    · have hreport : Except.error (Fault.invalid _) = _ := he
      cases hreport
      rfl
    · have hreport : Except.error (Fault.invalid _) = _ := he'
      cases hreport
      rfl

end

end Vetting
