import Vetting.Proofs.Lineage.History

/-!
# Which declarations are accepted

A type is declared unless it is its own parent, was declared before, or has no
chain: there is one exactly if some list without repetitions keeps the order of
the parents and of what each of them contributes by now. A declaration that is
refused cannot be noticed afterwards, whatever is called or asked; one that is
accepted gives its type a chain, and that is all. The fault of a declaration
that is refused tells which of these was the first in its way
(`declare_eq_error_iff`).
-/

namespace Vetting.Lineage

/-- The list repeats nothing, and keeps the order of the parents and of what each contributes. -/
structure Accords (acts : List Act) (parents order : List TypeKey) : Prop where
  nodup : order.Nodup
  keeps_parents : parents.Sublist order
  keeps_contributions : ∀ p ∈ parents, ∀ c, Contribution acts p c → c.Sublist order

inductive Request where
  | act (act : Act)
  | chain (ty : TypeKey)
  | origin (ty : TypeKey)
  | contains (ty : TypeKey)

inductive Reply where
  | declared (answer : Except Fault (List TypeKey))
  | stoodIn (answer : Except Fault Unit)
  | chain (answer : Option (List TypeKey))
  | origin (answer : Option TypeKey)
  | contains (answer : Bool)

def reply (l : Lineage) : Request → Reply
  | .act (.declare ty parents) =>
    .declared (((l.declare ty parents).map (·.1)).mapError Rejection.fault)
  | .act (.standIn ty origin) =>
    .stoodIn (((l.standIn ty origin).map fun _ => ()).mapError Rejection.fault)
  | .chain ty => .chain (l.chain? ty)
  | .origin ty => .origin (l.origin? ty)
  | .contains ty => .contains (l.contains ty)

/-- The replies to requests, one after another. -/
def replies (l : Lineage) : List Request → List Reply
  | [] => []
  | .act act :: rest => l.reply (.act act) :: (l.perform act).replies rest
  | request :: rest => l.reply request :: l.replies rest

section
variable {l l' : Lineage} {acts : List Act} {ty x : TypeKey} {parents order chain : List TypeKey}

theorem accords_iff : Accords acts parents order ↔
    Linearization.Orders (parents.map (after acts).contribution ++ [parents]) order := by
  constructor
  · rintro ⟨hnodup, hparents, hcontributions⟩
    refine ⟨hnodup, fun s hs => ?_⟩
    rcases List.mem_append.1 hs with hs | hs
    · obtain ⟨p, hp, rfl⟩ := List.mem_map.1 hs
      exact hcontributions p hp _ (contribution_iff.2 rfl)
    · rw [List.mem_singleton.1 hs]
      exact hparents
  · rintro ⟨hnodup, hkeeps⟩
    refine ⟨hnodup, hkeeps parents (by simp), fun p hp c hc => ?_⟩
    rw [← contribution_iff.1 hc]
    exact hkeeps _ (List.mem_append_left _ (List.mem_map_of_mem hp))

theorem merge_contributions_iff :
    (∃ tail, Linearization.merge (parents.map (after acts).contribution ++ [parents]) = some tail) ↔
      ∃ order, Accords acts parents order := by
  constructor
  · rintro ⟨tail, hmerge⟩
    exact ⟨tail, accords_iff.2 (Linearization.orders_of_merge hmerge).1⟩
  · rintro ⟨order, horder⟩
    exact Option.isSome_iff_exists.1 (accords_iff.1 horder).merge_isSome

theorem exists_declare_iff : (∃ answer, (after acts).declare ty parents = .ok answer) ↔
    ty ∉ parents ∧ (∀ before parents' chain, ¬ Declared acts before ty parents' chain) ∧
      ∃ order, Accords acts parents order := by
  rw [← chain?_after_eq_none_iff, ← merge_contributions_iff]
  constructor
  · rintro ⟨⟨chain, l'⟩, h⟩
    obtain ⟨hself, hnew, tail, hmerge, -⟩ := declare_eq_ok_iff.1 h
    exact ⟨hself, hnew, tail, hmerge⟩
  · rintro ⟨hself, hnew, tail, hmerge⟩
    exact ⟨_, declare_eq_ok_iff.2 ⟨hself, hnew, tail, hmerge, rfl, rfl⟩⟩

theorem perform_of_error {r : Rejection Lineage} (h : l.declare ty parents = .error r) :
    l.perform (.declare ty parents) = l := by
  simp only [perform, h, stateAfter, declare_eq_error h]

theorem perform_of_ok (h : l.declare ty parents = .ok (chain, l')) :
    l.perform (.declare ty parents) = l' := by
  simp only [perform, h, stateAfter]

theorem contains_of_declare (h : l.declare ty parents = .ok (chain, l')) (x : TypeKey) :
    l'.contains x = (x == ty || l.contains x) := by
  have hchain : (l'.chain? x).isSome = (if x = ty then some chain else l.chain? x).isSome :=
    congrArg Option.isSome (chain?_of_declare h)
  refine Eq.trans hchain ?_
  by_cases hx : x = ty
  · simp [hx]
  · simp only [hx, if_false, beq_eq_false_iff_ne.2 hx, Bool.false_or]
    rfl

theorem origin?_of_declare (h : l.declare ty parents = .ok (chain, l')) (x : TypeKey) :
    l'.origin? x = l.origin? x := by
  obtain ⟨-, -, tail, -, -, rfl⟩ := declare_eq_ok_iff.1 h
  rfl

/-- A type is declared exactly if it can be. Refused, the call changes no later reply; accepted, it
changes what the lineage tells of the type alone. -/
theorem declares_just_what_can_be (acts : List Act) (ty : TypeKey) (parents : List TypeKey) :
    ((∃ answer, (after acts).declare ty parents = .ok answer) ↔
      ty ∉ parents ∧ (∀ before parents' chain, ¬ Declared acts before ty parents' chain) ∧
        ∃ order, Accords acts parents order) ∧
    (¬ parents.Nodup → ∃ r, (after acts).declare ty parents = .error r) ∧
    (∀ r, (after acts).declare ty parents = .error r → r.state = after acts ∧ ∀ requests,
      (after (acts ++ [.declare ty parents])).replies requests = (after acts).replies requests) ∧
    ∀ chain l, (after acts).declare ty parents = .ok (chain, l) →
      after (acts ++ [.declare ty parents]) = l ∧
      (∀ x, l.chain? x = if x = ty then some chain else (after acts).chain? x) ∧
      (∀ x, l.contains x = (x == ty || (after acts).contains x)) ∧
      ∀ x, l.origin? x = (after acts).origin? x := by
  refine ⟨exists_declare_iff, ?_, ?_, ?_⟩
  · intro hrepeats
    cases h : (after acts).declare ty parents with
    | error r => exact ⟨r, rfl⟩
    | ok answer =>
      obtain ⟨-, -, order, horder⟩ := exists_declare_iff.1 ⟨answer, h⟩
      exact absurd (horder.keeps_parents.nodup horder.nodup) hrepeats
  · intro r h
    refine ⟨declare_eq_error h, fun requests => ?_⟩
    rw [after_concat, perform_of_error h]
  · intro chain l h
    refine ⟨?_, fun x => chain?_of_declare h, contains_of_declare h, origin?_of_declare h⟩
    rw [after_concat, perform_of_ok h]

def lineOfTwo : List Act := [.declare "A" [], .declare "B" ["A"], .standIn "A" "M"]

/-- A child cannot have `A` in front of `B`, nor `B` twice, but `B` in front of `A`. -/
theorem declares_just_what_can_be_lineOfTwo :
    (∃ r, (after lineOfTwo).declare "C" ["A", "B"] = .error r ∧ r.state = after lineOfTwo) ∧
      (∀ requests, (after (lineOfTwo ++ [.declare "C" ["A", "B"]])).replies requests =
        (after lineOfTwo).replies requests) ∧
      (∃ r, (after lineOfTwo).declare "C" ["B", "B"] = .error r) ∧
      (∃ order, Accords lineOfTwo ["B", "A"] order) ∧
      (after (lineOfTwo ++ [.declare "C" ["B", "A"]])).contains "C" = true := by
  have hrefused : (after lineOfTwo).declare "C" ["A", "B"] =
      .error ⟨.conflict (.noLinearization "C"), after lineOfTwo⟩ := by cbv
  obtain ⟨answer, haccepted⟩ : ∃ answer, (after lineOfTwo).declare "C" ["B", "A"] = .ok answer :=
    ⟨_, by cbv⟩
  obtain ⟨-, -, hsilent, -⟩ := declares_just_what_can_be lineOfTwo "C" ["A", "B"]
  obtain ⟨-, hrepeats, -⟩ := declares_just_what_can_be lineOfTwo "C" ["B", "B"]
  obtain ⟨hiff, -, -, hchanges⟩ := declares_just_what_can_be lineOfTwo "C" ["B", "A"]
  obtain ⟨hl, -, hcontains, -⟩ := hchanges answer.1 answer.2 haccepted
  obtain ⟨hstate, hsame⟩ := hsilent _ hrefused
  refine ⟨⟨_, hrefused, hstate⟩, hsame, hrepeats (by decide),
    (hiff.1 ⟨answer, haccepted⟩).2.2, ?_⟩
  rw [hl, hcontains]
  rfl

/-! ## Which fault -/

/-- The fault tells which condition is the first to fail. -/
theorem declare_eq_error_iff {r : Rejection Lineage} :
    (after acts).declare ty parents = .error r ↔ r.state = after acts ∧
      ((ty ∈ parents ∧ r.fault = .conflict (.selfParent ty)) ∨
      (ty ∉ parents ∧ (after acts).contains ty = true ∧ r.fault = .conflict (.declaredTwice ty)) ∨
      (ty ∉ parents ∧ (after acts).contains ty = false ∧ (¬ ∃ order, Accords acts parents order) ∧
        r.fault = .conflict (.noLinearization ty))) := by
  obtain ⟨fault, left⟩ := r
  have hsame : ∀ cause : Fault, (Except.error ⟨cause, after acts⟩ :
      Except (Rejection Lineage) (List TypeKey × Lineage)) = .error ⟨fault, left⟩ ↔
        left = after acts ∧ fault = cause := by
    intro cause
    simp only [Except.error.injEq, Rejection.mk.injEq]
    exact ⟨fun ⟨h, h'⟩ => ⟨h'.symm, h.symm⟩, fun ⟨h, h'⟩ => ⟨h'.symm, h.symm⟩⟩
  rw [← merge_contributions_iff]
  unfold declare
  by_cases hself : ty ∈ parents
  · simp [hself, hsame]
  · cases hnew : (after acts).contains ty with
    | true => simp [hself, hsame]
    | false =>
      cases hmerge : Linearization.merge (parents.map (after acts).contribution ++ [parents]) with
      | none => simp [hself, hsame]
      | some tail => simp [hself]

end

end Vetting.Lineage
