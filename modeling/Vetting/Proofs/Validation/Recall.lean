import Mathlib.Tactic.IntervalCases
import Vetting.Proofs.History
import Vetting.Proofs.Rule.Afresh
import Vetting.Proofs.Validation.Roster

/-!
# Memory over a history

A rule remembers a label or its lost fields from the first invocation that found
them. As long as the source of shapes stands by what it told such an invocation,
a rule remembers at each moment of a history just what the invocations before
have found (`recalls_after`), and that is what would be found now
(`Recalls.agrees`). So every invocation comes to what it would come to without
memory, and none looks for what an invocation before it has found.
-/

namespace Vetting

namespace Roster

section
variable {σ ι : Type}

def outcomeNow (w : Roster σ ι) (p : Posting ι) (x : ι) (args : Arguments) :
    Except Fault Outcome :=
  p.rule.invokeNow (w.bindings.get? p.id) x args w.state

def Finds (w : Roster σ ι) (id : RuleId) (label : String) (x : ι) (args : Arguments) : Prop :=
  ∃ p, w.posting? id = some p ∧ p.rule.Finds (w.bindings.get? id) x args w.state label

def Settles (w : Roster σ ι) (id : RuleId) (fields : NameSet) (x : ι) (args : Arguments) : Prop :=
  ∃ p, w.posting? id = some p ∧ p.rule.Settles (w.bindings.get? id) x args w.state fields

/-- At some invocation of the rule among the deeds, this was so. -/
def Happened (s : σ) (ds : List (Deed σ ι)) (id : RuleId)
    (happens : Roster σ ι → ι → Arguments → Prop) : Prop :=
  ∃ before x args, before ++ [.invoke id x args] <+: ds ∧ happens (after s before) x args

def Found (s : σ) (ds : List (Deed σ ι)) (id : RuleId) (label : String) : Prop :=
  Happened s ds id fun w => w.Finds id label

def Settled (s : σ) (ds : List (Deed σ ι)) (id : RuleId) (fields : NameSet) : Prop :=
  Happened s ds id fun w => w.Settles id fields

/-- When an invocation of the rule found its label or settled what it loses, the source of shapes
stands by the shape of the owner, when it is asked for it again and at all moments after. -/
def Steady (s : σ) (ds : List (Deed σ ι)) (id : RuleId) : Prop :=
  ∀ before x args b, before ++ [.invoke id x args] <+: ds →
    (∃ label, (after s before).Finds id label x args) ∨
      (∃ fields, (after s before).Settles id fields x args) →
    (after s before).bindings.get? id = some b →
    b.Keeps (after s before).state (b.asked (after s before).state) ∧
      ∀ later, before <+: later → later <+: ds →
        b.Keeps (after s before).state (after s later).state

variable {s : σ} {ds : List (Deed σ ι)} {d : Deed σ ι} {id : RuleId}
  {happens : Roster σ ι → ι → Arguments → Prop} {p : Posting ι} {x : ι} {args : Arguments}

/-! ## Moments of a history -/

theorem happened_nil : ¬ Happened s [] id happens :=
  fun ⟨_, _, _, h, _⟩ => not_moment_nil h

theorem happened_concat : Happened s (ds ++ [d]) id happens ↔
    Happened s ds id happens ∨ ∃ x args, d = .invoke id x args ∧ happens (after s ds) x args := by
  unfold Happened
  simp only [moment_concat_iff]
  constructor
  · rintro ⟨before, x, args, h | ⟨rfl, hd⟩, hh⟩
    · exact Or.inl ⟨before, x, args, h, hh⟩
    · exact Or.inr ⟨x, args, hd.symm, hh⟩
  · rintro (⟨before, x, args, h, hh⟩ | ⟨x, args, rfl, hh⟩)
    · exact ⟨before, x, args, Or.inl h, hh⟩
    · exact ⟨ds, x, args, Or.inr ⟨rfl, rfl⟩, hh⟩

theorem happened_invoke : Happened s (ds ++ [.invoke id x args]) id happens ↔
    Happened s ds id happens ∨ happens (after s ds) x args := by
  rw [happened_concat]
  apply or_congr_right
  constructor
  · rintro ⟨x', args', h, hh⟩
    cases h
    exact hh
  · intro hh
    exact ⟨x, args, rfl, hh⟩

theorem happened_other
    (hd : ∀ x args, d = .invoke id x args → (after s ds).posting? id = none)
    (hbuilt : ∀ x args, happens (after s ds) x args → ∃ p, (after s ds).posting? id = some p) :
    Happened s (ds ++ [d]) id happens ↔ Happened s ds id happens := by
  rw [happened_concat]
  apply or_iff_left
  rintro ⟨x, args, hx, hh⟩
  obtain ⟨p, hp⟩ := hbuilt x args hh
  rw [hd x args hx] at hp
  cases hp

theorem Steady.earlier {ds' : List (Deed σ ι)} (h : Steady s ds id) (hpre : ds' <+: ds) :
    Steady s ds' id := by
  intro before x args b hb hfinds hbound
  obtain ⟨hasked, hlater⟩ := h before x args b (hb.trans hpre) hfinds hbound
  exact ⟨hasked, fun later h₁ h₂ => hlater later h₁ (h₂.trans hpre)⟩

theorem stays_after {before : List (Deed σ ι)} (hpre : before <+: ds) :
    (∀ p, (after s before).posting? id = some p → (after s ds).posting? id = some p) ∧
      ∀ b, (after s before).bindings.get? id = some b → (after s ds).bindings.get? id = some b := by
  obtain ⟨rest, rfl⟩ := hpre
  unfold after
  rw [performAll_append]
  exact ⟨fun p h => posting?_performAll h, fun b h => binding_performAll h⟩

theorem finds_iff {w : Roster σ ι} {label : String} (hp : w.posting? id = some p) :
    w.Finds id label x args ↔ p.rule.Finds (w.bindings.get? id) x args w.state label := by
  simp [Finds, hp]

theorem settles_iff {w : Roster σ ι} {fields : NameSet} (hp : w.posting? id = some p) :
    w.Settles id fields x args ↔ p.rule.Settles (w.bindings.get? id) x args w.state fields := by
  simp [Settles, hp]

/-! ## What is remembered -/

/-- What a rule remembers is what its invocations have found. -/
structure Recalls (s : σ) (ds : List (Deed σ ι)) (id : RuleId) : Prop where
  label : ∀ label, ((after s ds).memos.of id).label = some label ↔ Found s ds id label
  loss : ∀ fields, ((after s ds).memos.of id).discards = some fields ↔ Settled s ds id fields

theorem now_of_happened {before : List (Deed σ ι)} (r : Rule ι) (hsteady : Steady s ds id)
    (hpre : before ++ [.invoke id x args] <+: ds)
    (hfinds : (∃ label, (after s before).Finds id label x args) ∨
      ∃ fields, (after s before).Settles id fields x args)
    (hknown : Known ((after s before).bindings.get? id) (after s before).state) :
    r.lossNow ((after s ds).bindings.get? id) (after s ds).state =
        r.lossNow ((after s before).bindings.get? id) (after s before).state ∧
      ∀ target, r.labelNow ((after s ds).bindings.get? id) target (after s ds).state =
        r.labelNow ((after s before).bindings.get? id) target (after s before).state := by
  have hbefore := prefix_of_moment hpre
  obtain ⟨b, shape, hb, hshape⟩ := hknown
  have hkeeps := (hsteady before x args b hpre hfinds hb).2 ds hbefore List.prefix_rfl
  rw [hb, (stays_after hbefore).2 b hb]
  apply (now_of_keeps _ ⟨b, shape, rfl, hshape⟩).2
  intro b' hb'
  cases hb'
  exact hkeeps

theorem Recalls.agrees (h : Recalls s ds id) (hsteady : Steady s ds id)
    (hp : (after s ds).posting? id = some p) :
    ((after s ds).memos.of id).Agrees p.rule ((after s ds).bindings.get? id)
      (after s ds).state where
  label label target hlabel ht := by
    obtain ⟨before, x, args, hpre, hfinds⟩ := (h.label label).1 hlabel
    have ⟨q, hq, report, target', hc, ht', hnow⟩ := hfinds
    have hbefore := prefix_of_moment hpre
    have hpq := (stays_after hbefore).1 q hq
    rw [hp] at hpq
    cases hpq
    rw [ht] at ht'
    cases ht'
    rw [(now_of_happened p.rule hsteady hpre (Or.inl ⟨label, hfinds⟩) (known_of_labelNow hnow)).2]
    exact hnow
  loss fields hfields := by
    obtain ⟨before, x, args, hpre, hsettles⟩ := (h.loss fields).1 hfields
    have ⟨q, hq, hknown, report, hnow⟩ := hsettles
    have hbefore := prefix_of_moment hpre
    have hpq := (stays_after hbefore).1 q hq
    rw [hp] at hpq
    cases hpq
    rw [(now_of_happened p.rule hsteady hpre (Or.inr ⟨fields, hsettles⟩) hknown).1]
    exact lossNow_of_discarding hnow

theorem Steady.keeps_asked (hsteady : Steady s (ds ++ [.invoke id x args]) id)
    (hp : (after s ds).posting? id = some p)
    (hfinds : ∃ label, p.rule.Finds ((after s ds).bindings.get? id) x args (after s ds).state label)
    (b : Binding σ) (hb : (after s ds).bindings.get? id = some b) :
    b.Keeps (after s ds).state (b.asked (after s ds).state) := by
  obtain ⟨label, hlabel⟩ := hfinds
  exact (hsteady ds x args b List.prefix_rfl (Or.inl ⟨label, p, hp, hlabel⟩) hb).1

/-- An invocation comes to what it comes to without memory, looks only for what was not found
before, and is remembered by what it has found. -/
theorem Recalls.invoke (h : Recalls s ds id) (hsteady : Steady s (ds ++ [.invoke id x args]) id)
    (hp : (after s ds).posting? id = some p) :
    Recalls s (ds ++ [.invoke id x args]) id ∧
      ((after s ds).invoked p x args).1 = (after s ds).outcomeNow p x args ∧
      ∃ n m, (after s (ds ++ [.invoke id x args])).state =
          (askedOf ((after s ds).bindings.get? id))^[n + m] (after s ds).state ∧
        Lookups p.rule ((after s ds).bindings.get? id) x args (after s ds).state
          (∃ label, Found s ds id label) (∃ fields, Settled s ds id fields) n m := by
  have hid := id_of_posting? hp
  subst hid
  rcases hi : (after s ds).invoked p x args with ⟨answer, memo, s'⟩
  obtain ⟨hanswer, hlabel, hloss, n, m, hstate, hlookups⟩ :=
    invoke_eq_invokeNow (h.agrees (hsteady.earlier (List.prefix_append _ _)) hp)
      (hsteady.keeps_asked hp) hi
  have hafter : after s (ds ++ [.invoke p.id x args]) =
      { after s ds with memos := (after s ds).memos.set p.id memo, state := s' } := by
    rw [after_concat]
    exact perform_invoke hp hi
  refine ⟨⟨?label, ?loss⟩, hanswer, n, m, ?state, ?lookups⟩
  case label =>
    intro label
    unfold Found
    rw [happened_invoke, finds_iff hp, hafter, Memos.of_set, if_pos rfl, hlabel label]
    exact or_congr_left (h.label label)
  case loss =>
    intro fields
    unfold Settled
    rw [happened_invoke, settles_iff hp, hafter, Memos.of_set, if_pos rfl, hloss fields]
    exact or_congr_left (h.loss fields)
  case state =>
    rw [hafter]
    exact hstate
  case lookups =>
    apply hlookups.congr
    · rw [Option.isSome_iff_exists]
      exact exists_congr h.label
    · rw [Option.isSome_iff_exists]
      exact exists_congr h.loss

theorem recalls_nil : Recalls s ([] : List (Deed σ ι)) id where
  label _ := iff_of_false nofun happened_nil
  loss _ := iff_of_false nofun happened_nil

theorem Recalls.other (h : Recalls s ds id) (hd : ∀ x args, d = .invoke id x args →
    (after s ds).posting? id = none) : Recalls s (ds ++ [d]) id := by
  have hmemo : (after s (ds ++ [d])).memos.of id = (after s ds).memos.of id := by
    rw [after_concat]
    by_cases hinvoke : ∃ x args, d = .invoke id x args
    · obtain ⟨x, args, rfl⟩ := hinvoke
      simp only [perform, hd x args rfl]
    · exact memo_perform fun x args hx => hinvoke ⟨x, args, hx⟩
  constructor
  · intro label
    rw [hmemo, h.label label]
    apply Iff.symm
    apply happened_other hd
    rintro x args ⟨p, hp, -⟩
    exact ⟨p, hp⟩
  · intro fields
    rw [hmemo, h.loss fields]
    apply Iff.symm
    apply happened_other hd
    rintro x args ⟨p, hp, -⟩
    exact ⟨p, hp⟩

theorem recalls_after (hsteady : Steady s ds id) : Recalls s ds id := by
  induction ds using List.reverseRecOn with
  | nil => exact recalls_nil
  | append_singleton ds d ih =>
    have h := ih (hsteady.earlier (List.prefix_append _ _))
    by_cases hd : ∃ x args, d = .invoke id x args ∧ (after s ds).posting? id ≠ none
    · obtain ⟨x, args, rfl, hp⟩ := hd
      obtain ⟨p, hp⟩ := Option.ne_none_iff_exists'.1 hp
      exact (h.invoke hsteady hp).1
    · apply h.other
      intro x args hx
      exact Classical.not_not.1 fun hp => hd ⟨x, args, hx, hp⟩

/-! ## Every invocation -/

structure Invoked (s : σ) (ds before : List (Deed σ ι)) (p : Posting ι) (x : ι) (args : Arguments)
    (answer : Except Fault Outcome) : Prop where
  moment : before ++ [.invoke p.id x args] <+: ds
  built : (after s before).posting? p.id = some p
  answered : ((after s before).invoked p x args).1 = answer

def history (s : σ) (acts : List (Act σ ι)) : List (Deed σ ι) := (start s).unfolded acts

theorem after_history (acts : List (Act σ ι)) :
    after s (history s acts) = (start s).actAll acts := performAll_unfolded acts

theorem invoked_of_calledAt {acts front rest : List (Act σ ι)} {ids : List RuleId}
    {args : Option Arguments} {k : Nat} {given : Arguments} {answer : Except Fault Outcome}
    (hacts : acts = front ++ .validate ids x args :: rest)
    (h : CalledAt ((start s).actAll front).bindings x args (((start s).actAll front).line ids)
      ((start s).actAll front).memos ((start s).actAll front).state k p given answer) :
    ∃ before, Invoked s (history s acts) before p x given answer := by
  obtain ⟨before, hpre, hbuilt, hanswer⟩ := exists_deed_of_calledAt h
  rw [← after_history] at hpre hbuilt hanswer
  have hafter : after s (history s front ++ before) =
      (after s (history s front)).performAll before := performAll_append
  rw [← hafter] at hbuilt hanswer
  refine ⟨history s front ++ before, ?_, hbuilt, hanswer⟩
  have hhistory : history s acts = history s front ++
      ((after s (history s front)).deeds (.validate ids x args) ++
        ((after s (history s front)).act (.validate ids x args)).unfolded rest) := by
    rw [hacts, after_history]
    exact unfolded_append front _
  rw [hhistory, List.append_assoc]
  exact (List.prefix_append_right_inj _).2 (hpre.trans (List.prefix_append _ _))

/-- Memory is not to be seen. In every history, validations come to the invocations that they make,
and each invocation of a rule for which the source of shapes is steady comes to what it comes to
without memory. It looks for the label of the target only if none before has found it, and for the
lost fields only if none before has settled them. -/
theorem invocations_are_afresh (s : σ) (acts : List (Act σ ι)) (id : RuleId)
    (hsteady : Steady s (history s acts) id) :
    after s (history s acts) = (start s).actAll acts ∧
      (∀ front ids x args rest k p given answer, acts = front ++ .validate ids x args :: rest →
        CalledAt ((start s).actAll front).bindings x args (((start s).actAll front).line ids)
          ((start s).actAll front).memos ((start s).actAll front).state k p given answer →
        ∃ before, Invoked s (history s acts) before p x given answer) ∧
      ∀ before p x args answer, p.id = id → Invoked s (history s acts) before p x args answer →
        answer = (after s before).outcomeNow p x args ∧
        ∃ n m, (after s (before ++ [.invoke id x args])).state =
            (askedOf ((after s before).bindings.get? id))^[n + m] (after s before).state ∧
          Lookups p.rule ((after s before).bindings.get? id) x args (after s before).state
            (∃ label, Found s before id label) (∃ fields, Settled s before id fields) n m := by
  refine ⟨after_history acts, ?_, ?_⟩
  · intro front ids x args rest k p given answer hacts h
    exact invoked_of_calledAt hacts h
  · intro before p x args answer hid h
    subst hid
    have hthen := hsteady.earlier h.moment
    have hrecalls := recalls_after (hthen.earlier (List.prefix_append _ _))
    obtain ⟨-, hanswer, hlookups⟩ := hrecalls.invoke hthen h.built
    exact ⟨h.answered.symm.trans hanswer, hlookups⟩

end

/-! ## A shape that comes late -/

def bodyDraft : Draft := (Draft.ofSignature "body" .method).target "body"

def brokenBody : Check Unit := .returning fun _ _ => .error (.because "broken")

def bodyRule : Posting Unit where
  id := 0
  rule := {
    name := "body", params := ∅, reads := ∅, signature := .method, check := brokenBody
    target := some "body", discards := ["body"], owner := none }

def bodyBook : ShapeBook := ⟨Table.set ∅ "T" ⟨[⟨"body_text", "Body", "body", false⟩]⟩⟩

def countedBook : RuleBook (Nat × ShapeBook) Unit :=
  ⟨fun _ => ∅, ShapeBook.source.counted, .declared, ∅⟩

/-- The rule is invoked before it is bound, before its owner has a shape, and twice after that. -/
def lateBody : List (Act (Nat × ShapeBook) Unit) :=
  [.deed (.build bodyDraft brokenBody), .deed (.invoke 0 () ∅),
    .deed (.register countedBook 0 "T"), .deed (.invoke 0 () ∅), .deed (.change (2, bodyBook)),
    .deed (.invoke 0 () ∅), .validate [0] () none]

theorem lateBody_moment (n : Nat) (hn : n ≤ 7) :
    (after (0, ∅) ((history (0, ∅) lateBody).take n)).state.2 = (if n ≤ 4 then ∅ else bodyBook) ∧
      ∀ b, (after (0, ∅) ((history (0, ∅) lateBody).take n)).bindings.get? 0 = some b →
        b.owner = "T" ∧ b.shapes = ShapeBook.source.counted := by
  interval_cases n
  all_goals
    refine ⟨rfl, fun b hb => ?_⟩
    cases hb <;> exact ⟨rfl, rfl⟩

theorem steady_lateBody : Steady (0, ∅) (history (0, ∅) lateBody) 0 := by
  have hlength : (history (0, ∅) lateBody).length = 7 := rfl
  have hmoment : ∀ {later}, later <+: history (0, ∅) lateBody →
      (after (0, ∅) later).state.2 = if later.length ≤ 4 then ∅ else bodyBook := by
    intro later hlater
    have h := (lateBody_moment later.length (hlength ▸ hlater.length_le)).1
    rw [← List.prefix_iff_eq_take.1 hlater] at h
    exact h
  intro before x args b hpre _ hb
  have hbefore : before <+: history (0, ∅) lateBody := (List.prefix_append _ _).trans hpre
  have hbound := (lateBody_moment before.length (hlength ▸ hbefore.length_le)).2 b
  rw [← List.prefix_iff_eq_take.1 hbefore] at hbound
  obtain ⟨howner, hshapes⟩ := hbound hb
  have hshape : ∀ s, b.shape s = s.2.shapeOf "T" .reading := by
    intro s
    unfold Binding.shape
    rw [howner, hshapes]
    rfl
  refine ⟨?_, fun later hle hlater => ?_⟩
  · intro shape h
    rw [hshape] at h ⊢
    have hsame : (b.asked (after (0, ∅) before).state).2 = (after (0, ∅) before).state.2 := by
      unfold Binding.asked
      rw [hshapes]
      rfl
    rw [hsame]
    exact h
  · intro shape h
    rw [hshape, hmoment hbefore] at h
    rw [hshape, hmoment hlater]
    by_cases hearly : before.length ≤ 4
    · rw [if_pos hearly] at h
      cases h
    · have hlate : ¬ later.length ≤ 4 := fun h' => hearly (hle.length_le.trans h')
      rw [if_neg hearly] at h
      rw [if_neg hlate]
      exact h

/-- Once the shape is there, the source is asked for the label and for the lost fields, and not
again by the validation that follows. -/
theorem lateBody_is_afresh :
    Steady (0, ∅) (history (0, ∅) lateBody) 0 ∧
      Invoked (0, ∅) (history (0, ∅) lateBody) ((history (0, ∅) lateBody).take 6) bodyRule () ∅
        (.ok (.discarding (.ofList ["body_text"]) ((Report.message "broken").under "Body"))) ∧
      (after (0, ∅) ((history (0, ∅) lateBody).take 6)).outcomeNow bodyRule () ∅ =
        .ok (.discarding (.ofList ["body_text"]) ((Report.message "broken").under "Body")) ∧
      ((start (0, ∅)).actAll lateBody).state.1 = 4 := by
  obtain ⟨hacts, -, hafresh⟩ := invocations_are_afresh (0, ∅) lateBody 0 steady_lateBody
  have hinvoked : Invoked (0, ∅) (history (0, ∅) lateBody) ((history (0, ∅) lateBody).take 6)
      bodyRule () ∅
        (.ok (.discarding (.ofList ["body_text"]) ((Report.message "broken").under "Body"))) :=
    ⟨List.prefix_rfl, rfl, rfl⟩
  refine ⟨steady_lateBody, hinvoked, (hafresh _ _ _ _ _ rfl hinvoked).1.symm, ?_⟩
  rw [← hacts]
  rfl

end Roster

end Vetting
