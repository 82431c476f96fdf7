import Vetting.Proofs.RuleBook.Registration
import Vetting.Proofs.Validation.Memory
import Vetting.Rule.Draft

/-!
# Histories of rules

Rules are built, bound and invoked in any order, and meanwhile what the sources
of shapes tell may change. A validation is not a deed of its own kind: it comes
to the invocations that it makes, one after another (`performAll_deeds`). So
whatever holds of all invocations in a history of single deeds holds of those
that a validation makes (`exists_deed_of_calledAt`).
-/

namespace Vetting

structure Roster (σ ι : Type) where
  rules : List (Rule ι)
  bindings : Bindings σ
  memos : Memos
  state : σ

namespace Roster

inductive Deed (σ ι : Type) where
  | build (draft : Draft) (check : Check ι)
  | register (book : RuleBook σ ι) (id : RuleId) (owner : TypeKey)
  | invoke (id : RuleId) (x : ι) (args : Arguments)
  | change (s : σ)

inductive Act (σ ι : Type) where
  | deed (d : Deed σ ι)
  | validate (ids : List RuleId) (x : ι) (args : Option Arguments)

variable {σ ι : Type}

def start (s : σ) : Roster σ ι := ⟨[], ∅, ∅, s⟩

def posting? (w : Roster σ ι) (id : RuleId) : Option (Posting ι) := w.rules[id]?.map (⟨id, ·⟩)

def line (w : Roster σ ι) (ids : List RuleId) : List (Posting ι) := ids.filterMap w.posting?

def invoked (w : Roster σ ι) (p : Posting ι) (x : ι) (args : Arguments) :
    Except Fault Outcome × Memo × σ :=
  p.rule.invoke (w.bindings.get? p.id) x args (w.memos.of p.id) w.state

def perform (w : Roster σ ι) : Deed σ ι → Roster σ ι
  | .build draft check => match draft.build check with
    | .error _ => w
    | .ok r => { w with rules := w.rules ++ [r] }
  | .register book id owner => match w.posting? id with
    | none => w
    | some p =>
      let left := book.offer p owner w.bindings w.state
      { w with bindings := left.bindings, state := left.state }
  | .invoke id x args => match w.posting? id with
    | none => w
    | some p =>
      let (_, memo, s) := w.invoked p x args
      { w with memos := w.memos.set id memo, state := s }
  | .change s => { w with state := s }

def performAll (w : Roster σ ι) (ds : List (Deed σ ι)) : Roster σ ι := ds.foldl perform w

def after (s : σ) (ds : List (Deed σ ι)) : Roster σ ι := (start s).performAll ds

def validation (w : Roster σ ι) (ids : List RuleId) (x : ι) (args : Option Arguments) : Run σ :=
  validate w.bindings x args (w.line ids) w.memos w.state

def act (w : Roster σ ι) : Act σ ι → Roster σ ι
  | .deed d => w.perform d
  | .validate ids x args =>
    let run := w.validation ids x args
    { w with memos := run.memos, state := run.state }

def actAll (w : Roster σ ι) (acts : List (Act σ ι)) : Roster σ ι := acts.foldl act w

def Deed.ofCall (x : ι) (c : Call) : Deed σ ι := .invoke c.rule x c.arguments

def deeds (w : Roster σ ι) : Act σ ι → List (Deed σ ι)
  | .deed d => [d]
  | .validate ids x args => (w.validation ids x args).calls.map (Deed.ofCall x)

/-- The single deeds that the acts come to. -/
def unfolded (w : Roster σ ι) : List (Act σ ι) → List (Deed σ ι)
  | [] => []
  | a :: acts => w.deeds a ++ (w.act a).unfolded acts

section
variable {w : Roster σ ι} {d : Deed σ ι} {ds ds' : List (Deed σ ι)} {p : Posting ι} {id : RuleId}
  {b : Binding σ} {x : ι} {args : Arguments} {answer : Except Fault Outcome} {memo : Memo} {s : σ}

theorem performAll_append : w.performAll (ds ++ ds') = (w.performAll ds).performAll ds' :=
  List.foldl_append

theorem after_concat : after s (ds ++ [d]) = (after s ds).perform d :=
  List.foldl_concat perform (start s) d ds

theorem id_of_posting? (h : w.posting? id = some p) : p.id = id := by
  unfold posting? at h
  obtain ⟨r, -, rfl⟩ := Option.map_eq_some_iff.1 h
  rfl

theorem posting?_of_mem_line {ids : List RuleId} (h : p ∈ w.line ids) :
    w.posting? p.id = some p := by
  obtain ⟨id, -, hid⟩ := List.mem_filterMap.1 h
  rw [id_of_posting? hid]
  exact hid

/-! ## What stays -/

theorem posting?_perform (h : w.posting? id = some p) : (w.perform d).posting? id = some p := by
  cases d with
  | build draft check =>
    simp only [perform]
    cases draft.build check with
    | error fault => exact h
    | ok r =>
      unfold posting? at h ⊢
      obtain ⟨r', hr, hp⟩ := Option.map_eq_some_iff.1 h
      have hlt := (List.getElem?_eq_some_iff.1 hr).1
      simp only [List.getElem?_append_left hlt, hr, Option.map_some, hp]
  | register book id' owner =>
    simp only [perform]
    cases w.posting? id' <;> exact h
  | invoke id' x args =>
    simp only [perform]
    cases w.posting? id' <;> exact h
  | change s => exact h

theorem binding_perform (h : w.bindings.get? id = some b) :
    (w.perform d).bindings.get? id = some b := by
  cases d with
  | build draft check =>
    simp only [perform]
    cases draft.build check <;> exact h
  | register book id' owner =>
    simp only [perform]
    cases w.posting? id' with
    | none => exact h
    | some p => exact RuleBook.get?_offer h
  | invoke id' x args =>
    simp only [perform]
    cases w.posting? id' <;> exact h
  | change s => exact h

theorem memo_perform (h : ∀ x args, d ≠ .invoke id x args) :
    (w.perform d).memos.of id = w.memos.of id := by
  cases d with
  | build draft check =>
    simp only [perform]
    cases draft.build check <;> rfl
  | register book id' owner =>
    simp only [perform]
    cases w.posting? id' <;> rfl
  | invoke id' x args =>
    have hne : id ≠ id' := by
      rintro rfl
      exact h x args rfl
    simp only [perform]
    cases w.posting? id' with
    | none => rfl
    | some p => rw [Memos.of_set, if_neg hne]
  | change s => rfl

theorem posting?_performAll (h : w.posting? id = some p) :
    (w.performAll ds).posting? id = some p :=
  List.foldlRecOn (motive := fun w => w.posting? id = some p) ds perform h
    fun _ h _ _ => posting?_perform h

theorem binding_performAll (h : w.bindings.get? id = some b) :
    (w.performAll ds).bindings.get? id = some b :=
  List.foldlRecOn (motive := fun w => w.bindings.get? id = some b) ds perform h
    fun _ h _ _ => binding_perform h

/-! ## Validations as deeds -/

theorem perform_invoke (hp : w.posting? id = some p)
    (hi : w.invoked p x args = (answer, memo, s)) :
    w.perform (.invoke id x args) = { w with memos := w.memos.set id memo, state := s } := by
  simp only [perform, hp, hi]

theorem performAll_course {turns : List (Turn ι)} {memos : Memos}
    (h : Course w.bindings x args w.memos w.state turns memos s)
    (hline : ∀ t ∈ turns, w.posting? t.posting.id = some t.posting) :
    w.performAll ((turns.filterMap Turn.call?).map (Deed.ofCall x)) =
      { w with memos := memos, state := s } := by
  induction h with
  | start => rfl
  | skip p _ _ ih =>
    rw [List.filterMap_append, List.map_append, performAll_append,
      ih fun t ht => hline t (List.mem_append_left _ ht)]
    rfl
  | run _ _ _ hi _ ih =>
    rw [List.filterMap_append, List.map_append, performAll_append,
      ih fun t ht => hline t (List.mem_append_left _ ht)]
    exact perform_invoke (hline _ (List.mem_append_right _ (List.mem_singleton_self _))) hi

/-- A validation leaves what its invocations leave. -/
theorem performAll_deeds (a : Act σ ι) : w.performAll (w.deeds a) = w.act a := by
  cases a with
  | deed d => rfl
  | validate ids x args =>
    have hmem : ∀ p ∈ w.line ids, w.posting? p.id = some p := fun p hp => posting?_of_mem_line hp
    unfold deeds act validation
    rcases validate_cases w.bindings x args (w.line ids) w.memos w.state with
      ⟨turns, memos, s, hc, hl, hcalls, hmemos, hstate⟩ |
      ⟨turns, memos, s, p, rest, fault, calls, memos', s', hc, hl, hm, ha, hcalls, hmemos, hstate⟩
    · rw [hl] at hmem
      simp only [hcalls, hmemos, hstate]
      exact performAll_course hc fun t ht => hmem _ (List.mem_map_of_mem ht)
    · rw [hl] at hmem
      have hp : w.posting? p.id = some p := hmem p (by simp)
      simp only [hcalls, hmemos, hstate]
      rw [List.map_append, performAll_append,
        performAll_course hc fun t ht => hmem _ (List.mem_append_left _ (List.mem_map_of_mem ht))]
      -- the rule that ends the run was called if it had its arguments
      cases hs : p.rule.select (args.getD ∅) with
      | error fault =>
        rw [attempt_of_unselected hs] at ha
        cases ha
        rfl
      | ok given =>
        rcases hi : p.rule.invoke (w.bindings.get? p.id) x given (memos.of p.id) s with
          ⟨answer, memo, s''⟩
        rw [attempt_of_invoked hs hi, Attempt.mk.injEq] at ha
        obtain ⟨-, rfl, rfl, rfl⟩ := ha
        exact perform_invoke hp hi

theorem performAll_unfolded (acts : List (Act σ ι)) :
    w.performAll (w.unfolded acts) = w.actAll acts := by
  induction acts generalizing w with
  | nil => rfl
  | cons a acts ih =>
    unfold unfolded
    rw [performAll_append, performAll_deeds, ih]
    rfl

theorem unfolded_append (acts acts' : List (Act σ ι)) :
    w.unfolded (acts ++ acts') = w.unfolded acts ++ (w.actAll acts).unfolded acts' := by
  induction acts generalizing w with
  | nil => rfl
  | cons a acts ih =>
    show w.deeds a ++ (w.act a).unfolded (acts ++ acts') = (w.deeds a ++ _) ++ _
    rw [ih, List.append_assoc]
    rfl

/-- A call at some place of a validation is a deed of it, and comes to the same answer there. -/
theorem exists_deed_of_calledAt {ids : List RuleId} {args : Option Arguments} {k : Nat}
    {given : Arguments}
    (h : CalledAt w.bindings x args (w.line ids) w.memos w.state k p given answer) :
    ∃ before, before ++ [.invoke p.id x given] <+: w.deeds (.validate ids x args) ∧
      (w.performAll before).posting? p.id = some p ∧
      ((w.performAll before).invoked p x given).1 = answer := by
  obtain ⟨turns, rest, memos, s, memo, s', hc, hl, -, hm, hi⟩ := h.reached
  have hmem : ∀ q ∈ turns.map Turn.posting ++ p :: rest, w.posting? q.id = some q := by
    intro q hq
    rw [← hl] at hq
    exact posting?_of_mem_line hq
  have hturns := performAll_course hc fun t ht =>
    hmem _ (List.mem_append_left _ (List.mem_map_of_mem ht))
  refine ⟨(turns.filterMap Turn.call?).map (Deed.ofCall x), ?_, ?_, ?_⟩
  · have hcalls : turns.filterMap Turn.call? ++ [⟨p.id, given⟩] <+:
        (w.validation ids x args).calls := by
      unfold validation validate
      rw [hl, validateFrom_of_course hc]
      apply (List.prefix_append_right_inj _).2
      exact first_call_of_attempt hm (attempt_of_invoked h.selected hi)
    have hdeeds : _ <+: w.deeds (.validate ids x args) := hcalls.map (Deed.ofCall x)
    rw [List.map_append] at hdeeds
    exact hdeeds
  · rw [hturns]
    exact hmem p (by simp)
  · rw [hturns]
    exact congrArg Prod.fst hi

end

end Roster

end Vetting
