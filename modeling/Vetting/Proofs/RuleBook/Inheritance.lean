import Vetting.Proofs.RuleBook.Lookup

/-!
# Rules of ancestors

What applies to an ancestor of a type applies to the type as well, as far as it
comes from the chain of the ancestor and the chain was known below it: a chain
is fixed with what the parents contribute at the time, so a parent that is
declared after its child has its own rules pass to the child, and not those that
it comes to inherit. What an ancestor stands in for is not asked for by the
types below; its rules reach them if their own stand-ins lead to it.
-/

namespace Vetting

namespace Lineage

/-- Whatever type of the chain was declared with the parent `p` was declared with all that `p`
contributes now. -/
def KnownBelow (acts : List Act) (p : TypeKey) (chain : List TypeKey) : Prop :=
  ∀ x ∈ chain, ∀ before parents c, Declared acts before x parents c → p ∈ parents →
    (after before).contribution p = (after acts).contribution p

section
variable {acts before : List Act} {ty p x : TypeKey} {parents chain : List TypeKey}

theorem Declared.mem_chain_iff (h : Declared acts before ty parents chain) :
    x ∈ chain ↔ x = ty ∨ ∃ p ∈ parents, x ∈ (after before).contribution p := by
  obtain ⟨tail, rfl, -, hmem⟩ := h.tail
  rw [List.mem_cons, hmem]

theorem Declared.before_prefix (h : Declared acts before ty parents chain) : before <+: acts :=
  (List.prefix_append _ _).trans h.called

theorem Declared.length_lt (h : Declared acts before ty parents chain) :
    before.length < acts.length := by
  have := h.called.length_le
  rw [List.length_append] at this
  exact this

theorem declared_of_mem_contribution (hx : x ∈ (after acts).contribution p) (hne : x ≠ p) :
    ∃ before parents, Declared acts before p parents ((after acts).contribution p) := by
  cases hc : (after acts).chain? p with
  | none =>
    rw [contribution, hc] at hx
    exact absurd (List.mem_singleton.1 hx) hne
  | some chain =>
    rw [contribution, hc]
    exact chain?_after_iff.1 hc

end

theorem mem_chain_of_mem_contribution {acts before : List Act} {ty p a : TypeKey}
    {parents chain : List TypeKey} (h : Declared acts before ty parents chain) (hp : p ∈ chain)
    (hknown : KnownBelow acts p chain) (ha : a ∈ (after acts).contribution p) : a ∈ chain := by
  rcases h.mem_chain_iff.1 hp with rfl | ⟨q, hq, hpq⟩
  · have hself := contribution_iff.1 (.known h)
    rwa [hself] at ha
  · by_cases hqp : p = q
    -- the type itself has `p` for a parent
    · subst hqp
      have hty : ty ∈ chain := h.mem_chain_iff.2 (Or.inl rfl)
      exact h.mem_chain_iff.2 (Or.inr ⟨p, hq, hknown ty hty before parents chain h hq ▸ ha⟩)
    -- a parent has `p` for an ancestor, and its chain is a part of this one
    · obtain ⟨before', parents', hd⟩ := declared_of_mem_contribution hpq hqp
      have hlt := hd.length_lt
      have hbelow : ∀ x ∈ (after before).contribution q, x ∈ chain :=
        fun x hx => h.mem_chain_iff.2 (Or.inr ⟨q, hq, hx⟩)
      obtain ⟨later, rfl⟩ := h.before_prefix
      refine hbelow a (mem_chain_of_mem_contribution (hd.append later) hpq ?_ ha)
      exact fun x hx => hknown x (hbelow x hx)
termination_by before.length

end Lineage

namespace RuleBook

variable {σ ι : Type} {ty ancestor : TypeKey} {chain : List TypeKey}

/-- The own rules of an ancestor of a type apply to the type. So do the rules that the ancestor
inherits, if its chain was known below it; and then so do all rules that apply to the ancestor, if
the stand-ins of the type lead to what the ancestor stands in for. -/
theorem rules_pass_below (acts : List Lineage.Act) (book : RuleBook σ ι) (s : σ)
    (hl : book.lineage s = Lineage.after acts) (hchain : (book.lineage s).chain? ty = some chain)
    (hancestor : ancestor ∈ chain) :
    (∀ p ∈ book.own ancestor, p ∈ (book.rulesFor s ty).1) ∧
    (Lineage.KnownBelow acts ancestor chain →
      (∀ p ∈ book.inherited (book.lineage s) ancestor, p ∈ (book.rulesFor s ty).1) ∧
      ((∀ origin, (book.lineage s).origin? ancestor = some origin →
          origin ∈ ((book.lineage s).walk ty).1) →
        ∀ p ∈ (book.rulesFor s ancestor).1, p ∈ (book.rulesFor s ty).1)) := by
  have hself : ty ∈ ((book.lineage s).walk ty).1 := Lineage.mem_walk_iff.2 ⟨0, rfl⟩
  have happly : ∀ {owner p}, owner ∈ chain → p ∈ book.own owner → p ∈ (book.rulesFor s ty).1 := by
    intro owner p howner hp
    refine mem_rulesFor_iff.2 ⟨ty, hself, owner, ?_, hp⟩
    rw [Lineage.contribution, hchain]
    exact howner
  refine ⟨fun p => happly hancestor, fun hknown => ?_⟩
  have hbelow : ∀ a ∈ (book.lineage s).contribution ancestor, a ∈ chain := by
    rw [hl] at hchain ⊢
    obtain ⟨before, parents, hd⟩ := Lineage.chain?_after_iff.1 hchain
    exact fun a => Lineage.mem_chain_of_mem_contribution hd hancestor hknown
  refine ⟨fun p hp => ?_, fun horigin p hp => ?_⟩
  · obtain ⟨owner, howner, hp⟩ := List.mem_flatMap.1 hp
    exact happly (hbelow owner howner) hp
  · obtain ⟨t, ht, owner, howner, hown⟩ := mem_rulesFor_iff.1 hp
    rcases Lineage.mem_walk_of_origin? horigin ht with rfl | ht
    · exact happly (hbelow owner howner) hown
    · exact mem_rulesFor_iff.2 ⟨t, ht, owner, howner, hown⟩

def oneRule (owner : TypeKey) : RuleBook Lineage Record :=
  ⟨fun l => l, .none, .declared, Table.set ∅ owner [.refusing 0 "v"]⟩

def sharedOrigin : List Lineage.Act :=
  [.declare "Base" ["Root"], .declare "Child" ["Base"], .standIn "Base" "Origin",
    .standIn "Child" "Origin"]

/-- The rule for the type that both stand in for passes from the ancestor to the type. -/
theorem rule_passes_below_sharedOrigin :
    (Lineage.after sharedOrigin).chain? "Child" = some (["Child", "Base", "Root"] : List TypeKey) ∧
      Lineage.KnownBelow sharedOrigin "Base" ["Child", "Base", "Root"] ∧
      (Lineage.after sharedOrigin).origin? "Base" = some ("Origin" : TypeKey) ∧
      ((Lineage.after sharedOrigin).walk "Child").1 = (["Child", "Origin"] : List TypeKey) ∧
      .refusing 0 "v" ∈ ((oneRule "Origin").rulesFor (Lineage.after sharedOrigin) "Base").1 ∧
      .refusing 0 "v" ∈ ((oneRule "Origin").rulesFor (Lineage.after sharedOrigin) "Child").1 := by
  have hchain : (Lineage.after sharedOrigin).chain? "Child" =
      some (["Child", "Base", "Root"] : List TypeKey) := by cbv
  have horigin : (Lineage.after sharedOrigin).origin? "Base" = some ("Origin" : TypeKey) := by cbv
  have hwalk : ((Lineage.after sharedOrigin).walk "Child").1 =
      (["Child", "Origin"] : List TypeKey) := by cbv
  have hbase : ((oneRule "Origin").rulesFor (Lineage.after sharedOrigin) "Base").1 =
      [.refusing 0 "v"] := by cbv
  have hknown : Lineage.KnownBelow sharedOrigin "Base" ["Child", "Base", "Root"] := by
    rintro x - before parents c ⟨⟨rest, hrest⟩, -⟩ hp
    -- only the second call has `Base` for a parent
    rcases before with _ | ⟨_, _ | ⟨_, _ | ⟨_, _ | ⟨_, before⟩⟩⟩⟩
    · cases hrest
      simp at hp
    · cases hrest
      cbv
    · cases hrest
    · cases hrest
    · simp [sharedOrigin] at hrest
  have hpass := ((rules_pass_below sharedOrigin (oneRule "Origin") (Lineage.after sharedOrigin) rfl
    hchain (by decide : ("Base" : TypeKey) ∈ _)).2 hknown).2
  refine ⟨hchain, hknown, horigin, hwalk, by rw [hbase]; exact List.mem_cons_self, ?_⟩
  refine hpass (fun origin h => ?_) _ (by rw [hbase]; exact List.mem_cons_self)
  cases horigin.symm.trans h
  exact hwalk ▸ (by decide : ("Origin" : TypeKey) ∈ (["Child", "Origin"] : List TypeKey))

def standInAbove : List Lineage.Act :=
  [.declare "Base" [], .declare "Child" ["Base"], .standIn "Base" "Origin"]

def lateAbove : List Lineage.Act := [.declare "Child" ["Base"], .declare "Base" ["Root"]]

/-- A rule can apply to an ancestor and not to the type: by what the ancestor stands in for, or by
what it inherits and did not when the type was declared. -/
theorem not_all_rules_pass_below :
    ((Lineage.after standInAbove).chain? "Child" = some (["Child", "Base"] : List TypeKey) ∧
      ((oneRule "Origin").rulesFor (Lineage.after standInAbove) "Base").1 = [.refusing 0 "v"] ∧
      ((oneRule "Origin").rulesFor (Lineage.after standInAbove) "Child").1 = []) ∧
    (Lineage.after lateAbove).chain? "Child" = some (["Child", "Base"] : List TypeKey) ∧
      ((oneRule "Root").rulesFor (Lineage.after lateAbove) "Base").1 = [.refusing 0 "v"] ∧
      ((oneRule "Root").rulesFor (Lineage.after lateAbove) "Child").1 = [] := by
  refine ⟨⟨by cbv, by cbv, by cbv⟩, by cbv, by cbv, by cbv⟩

end RuleBook

end Vetting
