import Vetting.Lineage.Basic
import Vetting.Proofs.History
import Vetting.Proofs.Lineage.Merging

/-!
# The history of a lineage

A lineage is the outcome of the calls that were made on it. The chain of a type
is what the one call answered that declared it: the type itself, and then the
merge of what its parents were known to be at that time. Later calls leave it
alone, and a type that no call has declared has no chain.
-/

namespace Vetting.Lineage

inductive Act where
  | declare (ty : TypeKey) (parents : List TypeKey)
  | standIn (ty origin : TypeKey)

def perform (l : Lineage) : Act → Lineage
  | .declare ty parents => stateAfter (fun (_, l') => l') (l.declare ty parents)
  | .standIn ty origin => stateAfter (fun l' => l') (l.standIn ty origin)

def after (acts : List Act) : Lineage := acts.foldl perform ∅

/-- The call that follows `before` in `acts` has declared `ty`, and has answered `chain`. -/
structure Declared (acts before : List Act) (ty : TypeKey) (parents chain : List TypeKey) :
    Prop where
  called : before ++ [.declare ty parents] <+: acts
  answer : ∃ l, (after before).declare ty parents = .ok (chain, l)

/-- What a parent contributes after some calls: its chain, or just itself if it was not declared. -/
inductive Contribution (acts : List Act) (parent : TypeKey) : List TypeKey → Prop
  | known {before : List Act} {parents chain : List TypeKey} :
      Declared acts before parent parents chain → Contribution acts parent chain
  | root : (∀ before parents chain, ¬ Declared acts before parent parents chain) →
      Contribution acts parent [parent]

section
variable {l l' : Lineage} {acts before : List Act} {ty x : TypeKey}
  {parents chain : List TypeKey}

/-! ## One call -/

theorem contains_eq_false : l.contains ty = false ↔ l.chain? ty = none := by
  rw [← Option.isNone_iff_eq_none, ← Option.isSome_eq_false_iff]; rfl

theorem declare_eq_ok_iff : l.declare ty parents = .ok (chain, l') ↔
    ty ∉ parents ∧ l.chain? ty = none ∧ ∃ tail,
      Linearization.merge (parents.map l.contribution ++ [parents]) = some tail ∧
      chain = ty :: tail ∧ l' = ⟨l.chains.set ty chain, l.origins⟩ := by
  rw [← contains_eq_false]
  constructor
  · intro h
    unfold declare at h
    split at h
    · cases h
    · split at h
      · cases h
      · split at h
        · cases h
        · rename_i hself hnew _ tail hmerge
          cases h
          exact ⟨hself, Bool.not_eq_true _ ▸ hnew, tail, hmerge, rfl, rfl⟩
  · rintro ⟨hself, hnew, tail, hmerge, rfl, rfl⟩
    simp only [declare, hself, hnew, hmerge, if_false, Bool.false_eq_true]

theorem declare_eq_error {r : Rejection Lineage} (h : l.declare ty parents = .error r) :
    r.state = l := by
  unfold declare at h
  split at h
  · cases h
    rfl
  · split at h
    · cases h
      rfl
    · split at h
      · cases h
        rfl
      · cases h

theorem standIn_eq_ok_iff {origin : TypeKey} : l.standIn ty origin = .ok l' ↔
    ty ≠ origin ∧ l' = ⟨l.chains, l.origins.set ty origin⟩ := by
  unfold standIn
  by_cases h : ty = origin
  · simp [h]
  · simp [h, eq_comm]

theorem standIn_eq_error {origin : TypeKey} {r : Rejection Lineage}
    (h : l.standIn ty origin = .error r) : r.state = l := by
  unfold standIn at h
  split at h
  · cases h
    rfl
  · cases h

theorem chain?_of_declare (h : l.declare ty parents = .ok (chain, l')) :
    l'.chain? x = if x = ty then some chain else l.chain? x := by
  obtain ⟨-, -, tail, -, -, rfl⟩ := declare_eq_ok_iff.1 h
  exact Table.get?_set l.chains ty x chain

@[simp] theorem chain?_empty (x : TypeKey) : (∅ : Lineage).chain? x = none := rfl

theorem perform_cases (l : Lineage) (act : Act) :
    (∃ ty parents chain, act = .declare ty parents ∧
      l.declare ty parents = .ok (chain, l.perform act)) ∨
    (∀ ty parents answer, act = .declare ty parents → l.declare ty parents ≠ .ok answer) ∧
      ∀ x, (l.perform act).chain? x = l.chain? x := by
  cases act with
  | standIn ty origin =>
    refine Or.inr ⟨nofun, fun x => ?_⟩
    cases hs : l.standIn ty origin with
    | ok l' =>
      obtain ⟨-, rfl⟩ := standIn_eq_ok_iff.1 hs
      simp only [perform, hs, stateAfter]
      rfl
    | error r => simp only [perform, hs, stateAfter, standIn_eq_error hs]
  | declare ty parents =>
    cases hd : l.declare ty parents with
    | ok answer =>
      have hperform : l.perform (.declare ty parents) = answer.2 := by
        simp only [perform, hd, stateAfter]
      exact Or.inl ⟨ty, parents, answer.1, rfl, by rw [hperform]; exact hd⟩
    | error r =>
      have hperform : l.perform (.declare ty parents) = l := by
        simp only [perform, hd, stateAfter, declare_eq_error hd]
      refine Or.inr ⟨fun ty' parents' answer hact hok => ?_, fun x => by rw [hperform]⟩
      cases hact
      cases hd.symm.trans hok

theorem chain?_perform_iff {act : Act} : (l.perform act).chain? x = some chain ↔
    l.chain? x = some chain ∨ ∃ parents l', act = .declare x parents ∧
      l.declare x parents = .ok (chain, l') := by
  rcases perform_cases l act with ⟨ty, parents, chain', rfl, hd⟩ | ⟨hnone, hsame⟩
  · obtain ⟨-, hnew, -⟩ := declare_eq_ok_iff.1 hd
    rw [chain?_of_declare hd]
    by_cases hx : x = ty
    · subst hx
      rw [if_pos rfl, hnew]
      constructor
      · intro h
        cases h
        exact Or.inr ⟨parents, _, rfl, hd⟩
      · rintro (h | ⟨_, _, hact, hok⟩)
        · cases h
        · cases hact
          cases hd.symm.trans hok
          rfl
    · rw [if_neg hx]
      refine ⟨Or.inl, ?_⟩
      rintro (h | ⟨_, _, hact, -⟩)
      · exact h
      · cases hact
        exact absurd rfl hx
  · rw [hsame]
    refine ⟨Or.inl, ?_⟩
    rintro (h | ⟨_, _, hact, hok⟩)
    · exact h
    · exact absurd hok (hnone _ _ _ hact)

/-! ## All calls -/

theorem after_concat (acts : List Act) (act : Act) :
    after (acts ++ [act]) = (after acts).perform act :=
  List.foldl_concat perform ∅ act acts

theorem declared_concat_iff {act : Act} : Declared (acts ++ [act]) before ty parents chain ↔
    Declared acts before ty parents chain ∨ before = acts ∧ act = .declare ty parents ∧
      ∃ l, (after acts).declare ty parents = .ok (chain, l) := by
  constructor
  · rintro ⟨hcalled, hanswer⟩
    rcases moment_concat_iff.1 hcalled with hcalled | ⟨rfl, hact⟩
    · exact Or.inl ⟨hcalled, hanswer⟩
    · exact Or.inr ⟨rfl, hact.symm, hanswer⟩
  · rintro (⟨hcalled, hanswer⟩ | ⟨rfl, rfl, hanswer⟩)
    · exact ⟨moment_concat_iff.2 (Or.inl hcalled), hanswer⟩
    · exact ⟨List.prefix_rfl, hanswer⟩

theorem not_declared_nil : ¬ Declared [] before ty parents chain :=
  fun h => not_moment_nil h.called

/-- The chain of a type is the answer of the call that declared it. -/
theorem chain?_after_iff : (after acts).chain? ty = some chain ↔
    ∃ before parents, Declared acts before ty parents chain := by
  refine (foldl_iff_exists_moment perform ∅ (fun l => l.chain? ty = some chain)
    (Option.some_ne_none chain).symm fun l act => chain?_perform_iff).trans ?_
  constructor
  · rintro ⟨before, _, hcalled, parents, l, rfl, hanswer⟩
    exact ⟨before, parents, hcalled, l, hanswer⟩
  · rintro ⟨before, parents, hcalled, l, hanswer⟩
    exact ⟨before, _, hcalled, parents, l, rfl, hanswer⟩

theorem chain?_after_eq_none_iff : (after acts).chain? ty = none ↔
    ∀ before parents chain, ¬ Declared acts before ty parents chain := by
  rw [Option.eq_none_iff_forall_ne_some]
  simp only [ne_eq, chain?_after_iff, not_exists]
  exact ⟨fun h before parents chain => h chain before parents,
    fun h chain before parents => h before parents chain⟩

theorem Declared.append (h : Declared acts before ty parents chain) (later : List Act) :
    Declared (acts ++ later) before ty parents chain :=
  ⟨h.called.trans (List.prefix_append _ _), h.answer⟩

theorem contribution_iff {parent : TypeKey} :
    Contribution acts parent chain ↔ (after acts).contribution parent = chain := by
  unfold contribution
  constructor
  · rintro (h | h)
    · rw [chain?_after_iff.2 ⟨_, _, h⟩]; rfl
    · rw [chain?_after_eq_none_iff.2 h]; rfl
  · intro h
    cases hc : (after acts).chain? parent with
    | none =>
      rw [hc] at h
      exact h ▸ .root (chain?_after_eq_none_iff.1 hc)
    | some c =>
      rw [hc] at h
      obtain ⟨before, parents, hd⟩ := chain?_after_iff.1 hc
      exact h ▸ .known hd

theorem head_of_chain? (h : (after acts).chain? ty = some chain) : ∃ tail, chain = ty :: tail := by
  obtain ⟨before, parents, hd⟩ := chain?_after_iff.1 h
  obtain ⟨_, hok⟩ := hd.answer
  obtain ⟨-, -, tail, -, hchain, -⟩ := declare_eq_ok_iff.1 hok
  exact ⟨tail, hchain⟩

theorem mem_contribution_self (acts : List Act) (ty : TypeKey) :
    ty ∈ (after acts).contribution ty := by
  unfold contribution
  cases h : (after acts).chain? ty with
  | none => exact List.mem_singleton_self ty
  | some chain =>
    obtain ⟨tail, rfl⟩ := head_of_chain? h
    exact List.mem_cons_self

theorem Declared.tail (h : Declared acts before ty parents chain) : ∃ tail, chain = ty :: tail ∧
    Linearization.Orders (parents.map (after before).contribution ++ [parents]) tail ∧
    ∀ x, x ∈ tail ↔ ∃ p ∈ parents, x ∈ (after before).contribution p := by
  obtain ⟨_, hok⟩ := h.answer
  obtain ⟨-, -, tail, hmerge, hchain, -⟩ := declare_eq_ok_iff.1 hok
  obtain ⟨horders, hmem⟩ := Linearization.orders_of_merge hmerge
  refine ⟨tail, hchain, horders, fun x => ?_⟩
  rw [hmem]
  constructor
  · rintro ⟨s, hs, hx⟩
    rcases List.mem_append.1 hs with hs | hs
    · obtain ⟨p, hp, rfl⟩ := List.mem_map.1 hs
      exact ⟨p, hp, hx⟩
    · rw [List.mem_singleton.1 hs] at hx
      exact ⟨x, hx, mem_contribution_self before x⟩
  · rintro ⟨p, hp, hx⟩
    exact ⟨_, List.mem_append_left _ (List.mem_map_of_mem hp), hx⟩

/-- A type that was never declared has no chain. A declared one has forever the chain that was
answered then: the type, and after it without repetition just what the parents contributed, in the
order of the parents and of each contribution. -/
theorem chains_are_exact (acts : List Act) (ty : TypeKey) :
    ((after acts).chain? ty = none ↔
      ∀ before parents chain, ¬ Declared acts before ty parents chain) ∧
    ∀ before parents chain, Declared acts before ty parents chain →
      (∀ later, (after (acts ++ later)).chain? ty = some chain) ∧
      ∃ tail, chain = ty :: tail ∧ tail.Nodup ∧ parents.Sublist tail ∧
        (∀ p ∈ parents, (∃ c, Contribution before p c) ∧
          ∀ c, Contribution before p c → c.Sublist tail) ∧
        ∀ x, x ∈ tail ↔ ∃ p ∈ parents, ∃ c, Contribution before p c ∧ x ∈ c := by
  refine ⟨chain?_after_eq_none_iff, fun before parents chain h => ⟨fun later => ?_, ?_⟩⟩
  · exact chain?_after_iff.2 ⟨before, parents, h.append later⟩
  · obtain ⟨tail, hchain, horders, hmem⟩ := h.tail
    refine ⟨tail, hchain, horders.nodup, horders.keeps parents (by simp), fun p hp => ?_, ?_⟩
    · refine ⟨⟨_, contribution_iff.2 rfl⟩, fun c hc => ?_⟩
      rw [← contribution_iff.1 hc]
      exact horders.keeps _ (List.mem_append_left _ (List.mem_map_of_mem hp))
    · simp only [contribution_iff, exists_eq_left']
      exact hmem

end

def lateParent : List Act :=
  [.declare "B" ["A"], .declare "A" ["O"], .standIn "A" "M", .declare "B" []]

/-- A parent that was declared late has given its child itself alone; a child that comes later still
has its whole chain. -/
theorem chain_of_late_parent :
    Declared (lateParent ++ [.declare "C" ["B", "A"]]) lateParent "C" ["B", "A"]
        ["C", "B", "A", "O"] ∧
      (∀ later, (after (lateParent ++ [.declare "C" ["B", "A"]] ++ later)).chain? "C" =
        some (["C", "B", "A", "O"] : List TypeKey)) ∧
      (after lateParent).chain? "B" = some (["B", "A"] : List TypeKey) := by
  have h : Declared (lateParent ++ [.declare "C" ["B", "A"]]) lateParent "C" ["B", "A"]
      ["C", "B", "A", "O"] := ⟨List.prefix_rfl, _, by cbv⟩
  exact ⟨h, ((chains_are_exact _ _).2 _ _ _ h).1, by cbv⟩

end Vetting.Lineage
