import Vetting.Proofs.RuleBook.Log
import Vetting.Proofs.Validation.Course

/-!
# How often a rule applies

A rule is listed once, but it applies to a type once for each type on the trail
of stand-ins that has the owner of the rule in its chain. So a rule applies at
most once to a type that stands in for no other; and one that stands in for
another has some rule twice just if the chains of two types on its trail have a
type in common that rules are listed for. A validation calls the rules in the
order in which they apply, each as often at most.
-/

namespace Vetting

/-- How many types on the trail of stand-ins from `ty` have `owner` in their chain. -/
def Lineage.ways (l : Lineage) (ty owner : TypeKey) : Nat :=
  (l.walk ty).1.countP (owner ∈ l.contribution ·)

theorem Lineage.ways_le_one {l : Lineage} {ty : TypeKey} (h : l.origin? ty = none)
    (owner : TypeKey) : l.ways ty owner ≤ 1 := by
  have hwalk := (walk_eq_iff l ty).2 ((trail_of_origin?_eq_none List.not_mem_nil h).2 ⟨rfl, rfl⟩)
  rw [ways, hwalk]
  exact List.countP_le_length

/-! ## Calls of a validation -/

section
variable {σ ι : Type} (bindings : Bindings σ) (x : ι) (args : Arguments)

theorem attempt_calls_sublist (p : Posting ι) (memos : Memos) (s : σ) :
    ((attempt bindings x args p memos s).calls.map Call.rule).Sublist [p.id] := by
  cases hs : p.rule.select args with
  | error fault =>
    rw [attempt_of_unselected hs]
    exact List.nil_sublist _
  | ok given =>
    rw [attempt_of_invoked hs rfl]
    exact List.Sublist.refl _

theorem calls_sublist : ∀ (line : List (Posting ι)) (gathered : Option Report) (lost : NameSet)
    (memos : Memos) (s : σ),
    ((validateFrom bindings x args line gathered lost memos s).calls.map Call.rule).Sublist
      (line.map Posting.id)
  | [], gathered, lost, memos, s => by
    rw [validateFrom, (conclude_calls gathered memos s).1]
    exact List.nil_sublist _
  | p :: line, gathered, lost, memos, s => by
    cases hm : (bindings.dependencies p.id).meets lost with
    | true =>
      rw [validateFrom_skip hm]
      exact (calls_sublist line gathered lost memos s).cons p.id
    | false =>
      have hcalls := attempt_calls_sublist bindings x args p memos s
      rcases ha : attempt bindings x args p memos s with
        ⟨fault | ⟨report, fields⟩, calls, memos', s'⟩
      · rw [ha] at hcalls
        rw [validateFrom_halt hm ha]
        exact hcalls.trans (List.singleton_sublist.2 List.mem_cons_self)
      · rw [ha] at hcalls
        rw [validateFrom_run hm ha, Run.after, List.map_append]
        exact hcalls.append (calls_sublist line _ _ memos' s')

end

namespace Library

section
variable {β σ ι : Type} [DecidableEq β] {l : Library β σ ι} {log : List (Entry β ι)}
  {p : Posting ι} {b : β} {owner ty : TypeKey}

/-! ## Places of a rule -/

theorem Records.count_own (h : Records l log) (hp : p ∈ (l.books b).own owner) (ty : TypeKey) :
    (((l.books b).own ty).map Posting.id).count p.id = if owner = ty then 1 else 0 := by
  by_cases hty : owner = ty
  · subst hty
    rw [if_pos rfl]
    exact List.count_eq_one_of_mem h.nodup_own (List.mem_map_of_mem hp)
  · rw [if_neg hty, List.count_eq_zero]
    intro hmem
    obtain ⟨p', hp', hid⟩ := List.mem_map.1 hmem
    exact hty (h.own_unique hp hp' hid.symm).2.1

theorem Records.count_flatMap_own (h : Records l log) (hp : p ∈ (l.books b).own owner)
    (tys : List TypeKey) :
    ((tys.flatMap (l.books b).own).map Posting.id).count p.id = tys.count owner := by
  induction tys with
  | nil => rfl
  | cons ty tys ih =>
    rw [List.flatMap_cons, List.map_append, List.count_append, h.count_own hp, ih, List.count_cons]
    by_cases hty : owner = ty
    · simp [hty, Nat.add_comm]
    · simp [hty, Ne.symm hty]

theorem Records.count_flatMap_inherited (h : Records l log) (hp : p ∈ (l.books b).own owner)
    (lineage : Lineage) : ∀ path : List TypeKey, (∀ t ∈ path, (lineage.contribution t).Nodup) →
      ((path.flatMap ((l.books b).inherited lineage)).map Posting.id).count p.id =
        path.countP (owner ∈ lineage.contribution ·)
  | [], _ => rfl
  | t :: path, hchains => by
    have ih := h.count_flatMap_inherited hp lineage path fun t ht =>
      hchains t (List.mem_cons_of_mem _ ht)
    have hfirst : (((l.books b).inherited lineage t).map Posting.id).count p.id =
        if owner ∈ lineage.contribution t then 1 else 0 := by
      rw [← (hchains t List.mem_cons_self).count]
      exact h.count_flatMap_own hp _
    rw [List.flatMap_cons, List.map_append, List.count_append, hfirst, ih, List.countP_cons,
      Nat.add_comm]
    simp only [decide_eq_true_eq]

/-- A rule applies to a type once for each type on the trail of stand-ins that has the owner of the
rule in its chain, if no such chain repeats a type. So no rule applies twice just if no owner of
rules is in two of the chains; that is so if the type stands in for no other. And a validation calls
rules in the order in which they apply, at no place twice. -/
theorem rules_apply_by_chains [Typed ι] (settings : β → RuleBook σ ι) (s : σ)
    (acts : List (Act β σ ι)) (b : β) (ty : TypeKey) (l : Library β σ ι) (lineage : Lineage)
    (hl : l = (start settings s).run acts) (hlineage : lineage = (l.books b).lineage l.state)
    (hchains : ∀ t ∈ (lineage.walk ty).1, (lineage.contribution t).Nodup) :
    (∀ owner, ∀ p ∈ (l.books b).own owner,
      (((l.books b).rulesFor l.state ty).1.map Posting.id).count p.id = lineage.ways ty owner) ∧
    ((((l.books b).rulesFor l.state ty).1.map Posting.id).Nodup ↔
      ∀ owner, (l.books b).own owner ≠ [] → lineage.ways ty owner ≤ 1) ∧
    (lineage.origin? ty = none → (((l.books b).rulesFor l.state ty).1.map Posting.id).Nodup) ∧
    ∀ x args memos, Typed.typeOf x = ty →
      (((l.books b).validate x args l.bindings memos l.state).calls.map Call.rule).Sublist
        (((l.books b).rulesFor l.state ty).1.map Posting.id) := by
  subst hlineage
  have h : Records l ((start settings s).log acts) := hl ▸ records_run settings s acts
  have hcount : ∀ owner, ∀ p ∈ (l.books b).own owner,
      (((l.books b).rulesFor l.state ty).1.map Posting.id).count p.id =
        ((l.books b).lineage l.state).ways ty owner :=
    fun owner p hp => h.count_flatMap_inherited hp _ _ hchains
  have hnodup : (((l.books b).rulesFor l.state ty).1.map Posting.id).Nodup ↔
      ∀ owner, (l.books b).own owner ≠ [] → ((l.books b).lineage l.state).ways ty owner ≤ 1 := by
    rw [List.nodup_iff_count_le_one]
    constructor
    · intro hle owner hne
      obtain ⟨p, hp⟩ := List.exists_mem_of_ne_nil _ hne
      exact hcount owner p hp ▸ hle p.id
    · intro hle id
      by_cases hid : id ∈ ((l.books b).rulesFor l.state ty).1.map Posting.id
      · obtain ⟨p, hp, rfl⟩ := List.mem_map.1 hid
        obtain ⟨owner, hown⟩ := RuleBook.mem_own_of_mem_rulesFor hp
        exact hcount owner p hown ▸ hle owner (List.ne_nil_of_mem hown)
      · rw [List.count_eq_zero.2 hid]
        exact Nat.zero_le 1
  refine ⟨hcount, hnodup, fun ho => ?_, ?_⟩
  · exact hnodup.2 fun owner _ => Lineage.ways_le_one ho owner
  · rintro x args memos rfl
    exact calls_sublist _ _ _ _ none ∅ memos l.state

end

/-- `Child` inherits from `Base` and stands in for it. -/
def standsInForParent : List Lineage.Act :=
  [.declare "Base" [], .declare "Child" ["Base"], .standIn "Child" "Base"]

def boundForBoth : List (Act Unit Lineage Record) :=
  [.post (Posting.refusing 0 "v").rule, .post (Posting.refusing 1 "w").rule,
    .register () 0 "Base", .register () 1 "Child"]

def oneBook : Library Unit Lineage Record :=
  start (fun _ => ⟨fun l => l, .none, .declared, ∅⟩) (.after standsInForParent)

theorem chains_standsInForParent :
    ((Lineage.after standsInForParent).walk "Child").1 = (["Child", "Base"] : List TypeKey) ∧
      (Lineage.after standsInForParent).contribution "Child" = (["Child", "Base"] : List TypeKey) ∧
      (Lineage.after standsInForParent).contribution "Base" = (["Base"] : List TypeKey) :=
  ⟨by cbv, by cbv, by cbv⟩

/-- The rule for `Base` applies to `Child` twice, once by each chain; the rule for `Child` once. -/
theorem rules_apply_by_two_chains :
    (((((oneBook.run boundForBoth).books ()).rulesFor (oneBook.run boundForBoth).state
      "Child").1.map Posting.id).count 0 = 2) ∧
    (((((oneBook.run boundForBoth).books ()).rulesFor (oneBook.run boundForBoth).state
      "Child").1.map Posting.id).count 1 = 1) := by
  obtain ⟨hwalk, hchild, hbase⟩ := chains_standsInForParent
  have hchains : ∀ t ∈ ((Lineage.after standsInForParent).walk "Child").1,
      ((Lineage.after standsInForParent).contribution t).Nodup := by
    rw [hwalk]
    simp only [List.forall_mem_cons, hchild, hbase]
    decide
  obtain ⟨hcount, -⟩ := rules_apply_by_chains (fun _ : Unit => oneBook.books ())
    (.after standsInForParent) boundForBoth () "Child" (oneBook.run boundForBoth)
    (.after standsInForParent) rfl rfl hchains
  have hways : ∀ owner, (Lineage.after standsInForParent).ways "Child" owner =
      (["Child", "Base"] : List TypeKey).countP
        (owner ∈ (Lineage.after standsInForParent).contribution ·) := by
    intro owner
    rw [Lineage.ways, hwalk]
  refine ⟨(hcount "Base" (.refusing 0 "v") ?_).trans ?_,
    (hcount "Child" (.refusing 1 "w") ?_).trans ?_⟩
  · exact List.mem_cons_self
  · rw [hways]
    simp only [List.countP_cons, hchild, hbase]
    rfl
  · exact List.mem_cons_self
  · rw [hways]
    simp only [List.countP_cons, hchild, hbase]
    rfl

/-- A rule for the parent of a type that stands in for the parent is found twice, called twice, and
its failure is reported twice. -/
theorem called_twice_of_standsInForParent :
    (((oneBook.run boundForBoth).books ()).rulesFor (oneBook.run boundForBoth).state "Child").1 =
      [.refusing 1 "w", .refusing 0 "v", .refusing 0 "v"] ∧
    (((oneBook.run boundForBoth).books ()).validate ⟨"Child", ∅⟩ none
      (oneBook.run boundForBoth).bindings ∅ (oneBook.run boundForBoth).state).calls =
        [⟨1, ∅⟩, ⟨0, ∅⟩, ⟨0, ∅⟩] ∧
    (((oneBook.run boundForBoth).books ()).validate ⟨"Child", ∅⟩ none
      (oneBook.run boundForBoth).bindings ∅ (oneBook.run boundForBoth).state).result =
        .error (.invalid (.ofMessages ["w is broken", "v is broken", "v is broken"])) := by
  obtain ⟨hwalk, hchild, hbase⟩ := chains_standsInForParent
  have hline : (((oneBook.run boundForBoth).books ()).rulesFor (oneBook.run boundForBoth).state
      "Child").1 = [.refusing 1 "w", .refusing 0 "v", .refusing 0 "v"] := by
    show ((Lineage.after standsInForParent).walk "Child").1.flatMap (fun t =>
      ((Lineage.after standsInForParent).contribution t).flatMap
        ((oneBook.run boundForBoth).books ()).own) = _
    rw [hwalk]
    simp only [List.flatMap_cons, hchild, hbase]
    rfl
  refine ⟨hline, ?_, ?_⟩
  · show (Vetting.validate _ _ none (((oneBook.run boundForBoth).books ()).rulesFor _ "Child").1
      ∅ _).calls = _
    rw [hline]
    rfl
  · show (Vetting.validate _ _ none (((oneBook.run boundForBoth).books ()).rulesFor _ "Child").1
      ∅ _).result = _
    rw [hline]
    rfl

end Library

end Vetting
