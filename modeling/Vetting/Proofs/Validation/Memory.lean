import Vetting.Proofs.Validation.Place

/-!
# What a run remembers

While the sources of shapes stand still, a rule loses the same fields at every
place of a line, those that it remembers from before or else those of now. It
remembers them after the run if it did so before, or if it has lost them on the
way and they were settled.
-/

namespace Vetting

theorem Memos.of_set (memos : Memos) (id id' : RuleId) (memo : Memo) :
    Memos.of (memos.set id memo) id' = if id' = id then memo else memos.of id' := by
  unfold Memos.of
  rw [Table.get?_set]
  by_cases h : id' = id <;> simp [h]

section
variable {σ ι : Type} {bindings : Bindings σ} {x : ι} {args : Option Arguments}
  {line : List (Posting ι)} {memos₀ memos : Memos} {s₀ s : σ} {turns : List (Turn ι)}
  {p : Posting ι} {given : Arguments} {answer : Except Fault Outcome} {k : Nat}

def Bindings.Still (bindings : Bindings σ) : Prop :=
  ∀ id b, bindings.get? id = some b → b.shapes.Still

/-- What the rule `p` loses where it fails, given what it remembers. -/
def Bindings.lost (bindings : Bindings σ) (memos : Memos) (s : σ) (p : Posting ι) : NameSet :=
  (memos.of p.id).discards.getD (p.rule.lostAfresh (bindings.get? p.id) s)

/-- What a part of a run has done to the memory of `p`: it keeps what is lost, and remembers it if
it did before, or if it is settled and `happened` holds. -/
structure Kept (bindings : Bindings σ) (memos₀ : Memos) (s₀ : σ) (p : Posting ι) (happened : Prop)
    (memos : Memos) (s : σ) : Prop where
  state : s = s₀
  lost : bindings.lost memos s p = bindings.lost memos₀ s₀ p
  remembered : (memos.of p.id).discards.isSome = true ↔
    (memos₀.of p.id).discards.isSome = true ∨
      p.rule.settles (bindings.get? p.id) s₀ = true ∧ happened

theorem Kept.congr {a b : Prop} (h : Kept bindings memos₀ s₀ p a memos s) (hab : a ↔ b) :
    Kept bindings memos₀ s₀ p b memos s :=
  propext hab ▸ h

theorem Kept.refl (bindings : Bindings σ) (memos : Memos) (s : σ) (p : Posting ι) :
    Kept bindings memos s p False memos s :=
  ⟨rfl, rfl, by simp⟩

theorem Kept.trans {a b : Prop} {memos' : Memos} {s' : σ} (h : Kept bindings memos₀ s₀ p a memos s)
    (h' : Kept bindings memos s p b memos' s') :
    Kept bindings memos₀ s₀ p (a ∨ b) memos' s' := by
  obtain ⟨rfl, hlost, hrem⟩ := h
  obtain ⟨rfl, hlost', hrem'⟩ := h'
  exact ⟨rfl, hlost'.trans hlost, by rw [hrem', hrem, and_or_left, or_assoc]⟩

theorem Kept.discards_eq_some {a : Prop} (h : Kept bindings memos₀ s₀ p a memos s)
    (hrem : (memos₀.of p.id).discards.isSome = true ∨
      p.rule.settles (bindings.get? p.id) s₀ = true ∧ a) :
    (memos.of p.id).discards = some (bindings.lost memos₀ s₀ p) := by
  obtain ⟨names, hnames⟩ := Option.isSome_iff_exists.1 (h.remembered.2 hrem)
  rw [← h.lost, Bindings.lost, hnames]
  rfl

theorem Kept.discards_eq_none {a : Prop} (h : Kept bindings memos₀ s₀ p a memos s)
    (hnone : (memos₀.of p.id).discards = none)
    (hrem : ¬ (p.rule.settles (bindings.get? p.id) s₀ = true ∧ a)) :
    (memos.of p.id).discards = none := by
  rw [← Option.not_isSome_iff_eq_none, h.remembered, hnone]
  simpa using hrem

/-! ## One call -/

theorem kept_of_other {q : Posting ι} {memo : Memo} (hne : p.id ≠ q.id) :
    Kept bindings memos s p False (memos.set q.id memo) s := by
  have hof : Memos.of (memos.set q.id memo) p.id = memos.of p.id := by
    rw [Memos.of_set, if_neg hne]
  exact ⟨rfl, by rw [Bindings.lost, hof]; rfl, by rw [hof]; simp⟩

theorem kept_of_same {memo : Memo} (h : memo.discards = (memos.of p.id).discards) :
    Kept bindings memos s p False (memos.set p.id memo) s := by
  have hof : Memos.of (memos.set p.id memo) p.id = memo := by rw [Memos.of_set, if_pos rfl]
  exact ⟨rfl, by rw [Bindings.lost, hof, h]; rfl, by rw [hof, h]; simp⟩

theorem kept_of_lost {memo : Memo} {fields : NameSet} {memo₁ : Memo} {s' : σ}
    (hmemo : memo₁.discards = (memos.of p.id).discards)
    (h : p.rule.lostFields (bindings.get? p.id) memo₁ s = (fields, memo, s')) :
    Kept bindings memos s p True (memos.set p.id memo) s ∧ fields = bindings.lost memos s p := by
  obtain ⟨hfields, hdiscards⟩ := lostFields_eq h
  rw [hmemo] at hfields hdiscards
  have hof : Memos.of (memos.set p.id memo) p.id = memo := by rw [Memos.of_set, if_pos rfl]
  refine ⟨⟨rfl, ?_, ?_⟩, hfields⟩
  · rw [Bindings.lost, hof, hdiscards]
    show _ = (memos.of p.id).discards.getD _
    cases hm : (memos.of p.id).discards with
    | some names => simp [hfields, hm]
    | none => cases p.rule.settles (bindings.get? p.id) s <;> simp [hfields, hm]
  · rw [hof, hdiscards]
    cases (memos.of p.id).discards <;> cases p.rule.settles (bindings.get? p.id) s <;> simp

theorem kept_of_invoke {memo : Memo} {s' : σ} (hstill : bindings.Still)
    (h : p.rule.invoke (bindings.get? p.id) x given (memos.of p.id) s = (answer, memo, s')) :
    Kept bindings memos s p (∃ fields report, answer = .ok (.discarding fields report))
      (memos.set p.id memo) s' ∧ ∀ fields report,
        answer = .ok (.discarding fields report) → fields = bindings.lost memos s p := by
  obtain ⟨rfl, ⟨outcome, rfl, hr⟩ | ⟨⟨fault, rfl⟩, rfl⟩⟩ := invoke_remembers (hstill p.id) h
  · rcases hr with ⟨fields, report, memo₁, rfl, hmemo, hl⟩ | ⟨hnone, hmemo⟩
    · obtain ⟨hkept, hfields⟩ := kept_of_lost hmemo hl
      refine ⟨hkept.congr (by simp), fun fields' report' ho => ?_⟩
      cases ho
      exact hfields
    · exact ⟨(kept_of_same hmemo).congr (by simpa using hnone),
        fun fields report ho => absurd (Except.ok.inj ho) (hnone fields report)⟩
  · exact ⟨(kept_of_same rfl).congr (by simp), nofun⟩

/-! ## Runs -/

def Turn.LostIn (turns : List (Turn ι)) (p : Posting ι) (fields : NameSet) : Prop :=
  ∃ given report, Turn.ran p given (.discarding fields report) ∈ turns

theorem Turn.lostIn_concat {t : Turn ι} {fields : NameSet} :
    Turn.LostIn (turns ++ [t]) p fields ↔ Turn.LostIn turns p fields ∨
      ∃ given report, t = .ran p given (.discarding fields report) := by
  simp only [Turn.LostIn, List.mem_append, List.mem_singleton, exists_or, eq_comm]

theorem kept_of_course {args : Arguments} (hstill : bindings.Still)
    (h : Course bindings x args memos₀ s₀ turns memos s)
    (honly : ∀ t ∈ turns, t.posting.id = p.id → t.posting = p) :
    Kept bindings memos₀ s₀ p (∃ fields, Turn.LostIn turns p fields) memos s ∧
      ∀ fields, Turn.LostIn turns p fields → fields = bindings.lost memos₀ s₀ p := by
  induction h with
  | start =>
    have hnone : ∀ fields, ¬ Turn.LostIn [] p fields := by simp [Turn.LostIn]
    exact ⟨(Kept.refl bindings memos₀ s₀ p).congr (by simp [hnone]),
      fun fields hlost => absurd hlost (hnone fields)⟩
  | skip q _ _ ih =>
    obtain ⟨hkept, hfields⟩ := ih fun t ht => honly t (List.mem_append_left _ ht)
    exact ⟨hkept.congr (by simp [Turn.lostIn_concat]), by simpa [Turn.lostIn_concat] using hfields⟩
  | run h hm hs hi hd ih =>
    rename_i turns memos s s' q given outcome memo
    obtain ⟨hkept, hfields⟩ := ih fun t ht => honly t (List.mem_append_left _ ht)
    by_cases hid : q.id = p.id
    · obtain rfl : q = p := honly _ (List.mem_append_right _ (List.mem_singleton_self _)) hid
      obtain ⟨hstep, hnow⟩ := kept_of_invoke hstill hi
      refine ⟨(hkept.trans hstep).congr (by simp [Turn.lostIn_concat, exists_or]), ?_⟩
      intro fields hlost
      rcases Turn.lostIn_concat.1 hlost with hold | ⟨_, report, hnew⟩
      · exact hfields fields hold
      · cases hnew
        exact (hnow fields report rfl).trans hkept.lost
    · obtain ⟨rfl, -⟩ := invoke_remembers (hstill q.id) hi
      have hold : ∀ fields, Turn.LostIn (turns ++ [.ran q given outcome]) p fields ↔
          Turn.LostIn turns p fields := by
        intro fields
        rw [Turn.lostIn_concat, or_iff_left]
        rintro ⟨_, _, h⟩
        cases h
        exact hid rfl
      refine ⟨(hkept.trans (kept_of_other (Ne.symm hid))).congr ?_, ?_⟩
      · simp only [hold, or_false]
      · simpa only [hold] using hfields

theorem kept_of_halt {args : Arguments} {q : Posting ι} {fault : Fault} {calls : List Call}
    {memos' : Memos} {s' : σ} (hstill : bindings.Still) (honly : q.id = p.id → q = p)
    (h : attempt bindings x args q memos s = ⟨.error fault, calls, memos', s'⟩) :
    Kept bindings memos s p False memos' s' := by
  cases hs : q.rule.select args with
  | error fault =>
    rw [attempt_of_unselected hs] at h
    cases h
    exact Kept.refl bindings memos s p
  | ok given =>
    rcases hi : q.rule.invoke (bindings.get? q.id) x given (memos.of q.id) s with
      ⟨answer, memo, s''⟩
    rw [attempt_of_invoked hs hi, Attempt.mk.injEq] at h
    obtain ⟨hverdict, -, rfl, rfl⟩ := h
    by_cases hid : q.id = p.id
    · obtain rfl := honly hid
      refine (kept_of_invoke hstill hi).1.congr (iff_false_intro ?_)
      rintro ⟨fields, report, rfl⟩
      cases hverdict
    · obtain ⟨rfl, -⟩ := invoke_remembers (hstill q.id) hi
      exact kept_of_other (Ne.symm hid)

theorem length_le_of_halt {q : Posting ι} {fault : Fault} {calls : List Call}
    {memos' memos'' : Memos} {s' s'' : σ} {turns' : List (Turn ι)} {rest rest' : List (Posting ι)}
    (hc : Course bindings x (args.getD ∅) memos₀ s₀ turns memos s)
    (hm : (bindings.dependencies q.id).meets (Turn.lostBy turns) = false)
    (ha : attempt bindings x (args.getD ∅) q memos s = ⟨.error fault, calls, memos', s'⟩)
    (hc' : Course bindings x (args.getD ∅) memos₀ s₀ turns' memos'' s'')
    (hl : turns.map Turn.posting ++ q :: rest = turns'.map Turn.posting ++ rest') :
    turns'.length ≤ turns.length := by
  refine Nat.le_of_not_lt fun hlt => ?_
  obtain ⟨_, _, -, ⟨-, hmeets⟩ | ⟨_, _, _, _, -, hs, hi, hd⟩⟩ := next_turn hc hc' hl hlt
  · rw [hm] at hmeets
    cases hmeets
  · rw [attempt_of_run hs hi hd] at ha
    cases ha

theorem exists_loss_iff {rest : List (Posting ι)}
    (hc : Course bindings x (args.getD ∅) memos₀ s₀ turns memos s)
    (hl : line = turns.map Turn.posting ++ rest)
    (hmax : ∀ {k given fields report},
      CalledAt bindings x args line memos₀ s₀ k p given (.ok (.discarding fields report)) →
        k < turns.length) :
    (∃ fields, Turn.LostIn turns p fields) ↔
      ∃ k given fields report,
        CalledAt bindings x args line memos₀ s₀ k p given (.ok (.discarding fields report)) := by
  constructor
  · rintro ⟨fields, given, report, hmem⟩
    obtain ⟨before, after, hsplit⟩ := List.append_of_mem hmem
    exact ⟨_, given, fields, report, calledAt_of_course hc hsplit hl⟩
  · rintro ⟨k, given, fields, report, h⟩
    exact ⟨fields, given, report, turn_of_calledAt h hc hl (hmax h)⟩

theorem only_in_turns {rest : List (Posting ι)} (honly : ∀ q ∈ line, q.id = p.id → q = p)
    (hl : line = turns.map Turn.posting ++ rest) :
    ∀ t ∈ turns, t.posting.id = p.id → t.posting = p := by
  intro t ht
  refine honly _ ?_
  rw [hl]
  exact List.mem_append_left _ (List.mem_map_of_mem ht)

/-- A whole run keeps what the rule loses, and remembers it if the rule loses it at some place. -/
theorem kept_of_validate (hstill : bindings.Still) (honly : ∀ q ∈ line, q.id = p.id → q = p) :
    Kept bindings memos₀ s₀ p (∃ k given fields report,
        CalledAt bindings x args line memos₀ s₀ k p given (.ok (.discarding fields report)))
      (validate bindings x args line memos₀ s₀).memos
      (validate bindings x args line memos₀ s₀).state := by
  rcases validate_cases bindings x args line memos₀ s₀ with
    ⟨turns, memos, s, hc, hl, -, rfl, rfl⟩ |
    ⟨turns, memos, s, q, rest, fault, calls, _, _, hc, hl, hm, ha, -, rfl, rfl⟩
  · rw [← List.append_nil (turns.map Turn.posting)] at hl
    have hkept := (kept_of_course hstill hc (only_in_turns honly hl)).1
    refine hkept.congr (exists_loss_iff hc hl fun h => ?_)
    obtain ⟨_, _, _, _, rfl, hl', -⟩ := course_of_calledAt h rfl
    have := congrArg List.length (hl.symm.trans hl')
    simp only [List.length_append, List.length_map, List.length_cons, List.length_nil] at this
    omega
  · have hkept := (kept_of_course hstill hc (only_in_turns honly hl)).1
    have hq : q ∈ line := by
      rw [hl]
      exact List.mem_append_right _ List.mem_cons_self
    have hend := hkept.trans (kept_of_halt hstill (honly q hq) ha)
    refine hend.congr ((or_iff_left not_false).trans (exists_loss_iff hc hl fun h => ?_))
    obtain ⟨_, _, _, _, rfl, hl', hc'⟩ := course_of_calledAt h rfl
    have := length_le_of_halt hc hm ha hc' (hl.symm.trans hl')
    simp only [List.length_append, List.length_cons, List.length_nil] at this
    omega

/-- The fields that a rule loses are the same wherever in the line it loses them. -/
theorem lost_of_calledAt {fields : NameSet} {report : Report} (hstill : bindings.Still)
    (honly : ∀ q ∈ line, q.id = p.id → q = p)
    (h : CalledAt bindings x args line memos₀ s₀ k p given (.ok (.discarding fields report))) :
    fields = bindings.lost memos₀ s₀ p := by
  obtain ⟨front, rest, _, _, -, hl, hc⟩ := course_of_calledAt h rfl
  exact (kept_of_course hstill hc (only_in_turns honly hl)).2 fields ⟨given, report, by simp⟩

end

end Vetting
