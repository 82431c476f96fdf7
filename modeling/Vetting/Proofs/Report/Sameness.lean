import Mathlib.Data.List.Perm.Subperm
import Vetting.Proofs.Report.Pointwise

/-!
# Reports up to the order of branches

Two reports are the same if they have the same paths, and at each path the same
messages in the same order; in which order the branches of a node stand is left
open. A merge, a branch and the findings are given path by path, so they do not
tell reports apart that are the same. Findings know nothing of silent branches:
without these, reports whose findings agree at every path are the same.
-/

namespace Vetting

namespace ReportTree

def messagesAt? (t : ReportTree) (path : List String) : Option (List String) :=
  (t.node? path).map messages

theorem messagesAt?_cons (ms : List String) (bs : Branches) (k : String) (path : List String) :
    (node ms bs).messagesAt? (k :: path) = (lookupEntry k bs).bind (·.messagesAt? path) := by
  unfold messagesAt?
  rw [node?]
  cases lookupEntry k bs <;> rfl

theorem messagesAt?_merge {a b : ReportTree} (hb : b.Distinct) (path : List String) :
    (a.merge b).messagesAt? path = (a.messagesAt? path).merge (· ++ ·) (b.messagesAt? path) := by
  unfold messagesAt?
  rw [node?_merge path hb]
  cases a.node? path <;> cases b.node? path <;> simp [messages_merge]

/-! ## Branches that match -/

/-- Every branch of `bs` has one in `bs'` that tells the same at every path. -/
def Matched (bs bs' : Branches) : Prop :=
  ∀ k t, lookupEntry k bs = some t → ∃ u, lookupEntry k bs' = some u ∧
    ∀ path, t.messagesAt? path = u.messagesAt? path

theorem Matched.keys_subset {bs bs' : Branches} (h : Matched bs bs') :
    bs.map (·.1) ⊆ bs'.map (·.1) := by
  intro k hk
  apply Decidable.byContradiction
  intro hk'
  cases ht : lookupEntry k bs with
  | none => exact lookupEntry_eq_none.1 ht hk
  | some t =>
    obtain ⟨u, hu, -⟩ := h k t ht
    rw [lookupEntry_eq_none.2 hk'] at hu
    cases hu

theorem matched_cons {k : String} {t : ReportTree} {l bs' : Branches} (hk : k ∉ l.map (·.1)) :
    Matched ((k, t) :: l) bs' ↔
      (∃ u, lookupEntry k bs' = some u ∧ ∀ path, t.messagesAt? path = u.messagesAt? path) ∧
        Matched l bs' :=
  Report.forall_lookupEntry_cons hk

theorem matched_of_eq {bs bs' : Branches} (h : ∀ k path,
    (lookupEntry k bs).bind (·.messagesAt? path) = (lookupEntry k bs').bind (·.messagesAt? path)) :
    Matched bs bs' := by
  intro k t ht
  cases hu : lookupEntry k bs' with
  | none =>
    have hroot := h k []
    rw [ht, hu] at hroot
    cases hroot
  | some u =>
    refine ⟨u, rfl, fun path => ?_⟩
    have hpath := h k path
    rw [ht, hu] at hpath
    exact hpath

theorem messagesAt?_eq_iff {ms ms' : List String} {bs bs' : Branches} (hn : (bs.map (·.1)).Nodup)
    (hn' : (bs'.map (·.1)).Nodup) :
    (∀ path, (node ms bs).messagesAt? path = (node ms' bs').messagesAt? path) ↔
      ms = ms' ∧ bs.length = bs'.length ∧ Matched bs bs' := by
  constructor
  · intro h
    have hown : ms = ms' := Option.some.inj (h [])
    have hbranch : ∀ k path, (lookupEntry k bs).bind (·.messagesAt? path) =
        (lookupEntry k bs').bind (·.messagesAt? path) := by
      intro k path
      rw [← messagesAt?_cons ms, ← messagesAt?_cons ms']
      exact h (k :: path)
    have hmatched := matched_of_eq hbranch
    have hmatched' := matched_of_eq fun k path => (hbranch k path).symm
    have hle := (List.subperm_of_subset hn hmatched.keys_subset).length_le
    have hge := (List.subperm_of_subset hn' hmatched'.keys_subset).length_le
    simp only [List.length_map] at hle hge
    exact ⟨hown, Nat.le_antisymm hle hge, hmatched⟩
  · rintro ⟨rfl, hlength, hmatched⟩ path
    cases path with
    | nil => rfl
    | cons k path =>
      rw [messagesAt?_cons, messagesAt?_cons]
      cases ht : lookupEntry k bs with
      | some t =>
        obtain ⟨u, hu, htu⟩ := hmatched k t ht
        rw [hu]
        exact htu path
      | none =>
        -- the keys are as many, so no key of the second tree is new
        have hsub := List.subperm_of_subset hn hmatched.keys_subset
        have hperm := hsub.perm_of_length_le (by simp [hlength])
        have hk : k ∉ bs'.map (·.1) := fun hk => lookupEntry_eq_none.1 ht (hperm.mem_iff.2 hk)
        rw [lookupEntry_eq_none.2 hk]

mutual

theorem same_iff : ∀ {t u : ReportTree}, t.Distinct → u.Distinct →
    (t.same u = true ↔ ∀ path, t.messagesAt? path = u.messagesAt? path)
  | node ms bs, node ms' bs', ht, hu => by
    have hbs := allIn_iff ht.1 ht.2 hu.2
    rw [messagesAt?_eq_iff ht.1 hu.1, same, Bool.and_eq_true, Bool.and_eq_true, beq_iff_eq,
      beq_iff_eq, hbs, and_assoc]

theorem allIn_iff : ∀ {bs bs' : Branches}, (bs.map (·.1)).Nodup → AllDistinct bs →
    AllDistinct bs' → (allIn bs bs' = true ↔ Matched bs bs')
  | [], bs', _, _, _ => by simp [allIn, Matched, lookupEntry]
  | (k, t) :: l, bs', hn, hd, hd' => by
    rw [List.map_cons, List.nodup_cons] at hn
    have hl := allIn_iff hn.2 hd.2 hd'
    rw [matched_cons hn.1, allIn, Bool.and_eq_true, hl]
    cases hu : lookupEntry k bs' with
    | none => simp
    | some u =>
      have htu := same_iff hd.1 (distinct_of_lookupEntry hd' hu)
      simp only [htu, Option.some.injEq, exists_eq_left']

end

/-! ## Trees without silent branches -/

theorem node?_append (t : ReportTree) (path way : List String) :
    t.node? (path ++ way) = (t.node? path).bind (·.node? way) := by
  induction path generalizing t with
  | nil => rfl
  | cons k path ih =>
    cases t with
    | node ms bs =>
      rw [List.cons_append, node?, node?]
      cases lookupEntry k bs with
      | none => rfl
      | some u => exact ih u

theorem exists_node? {t u : ReportTree} (ht : t.EveryBranchSpeaks)
    (h : ∀ path, t.messagesAt path = u.messagesAt path) {path : List String} {v : ReportTree}
    (hv : t.node? path = some v) : ∃ w, u.node? path = some w := by
  cases path with
  | nil => exact ⟨u, rfl⟩
  | cons k path =>
    obtain ⟨way, hway⟩ := ht k path v hv
    have hthere : t.messagesAt (k :: path ++ way) = v.messagesAt way := by
      unfold messagesAt
      rw [node?_append, hv]
      rfl
    rw [← hthere, h] at hway
    cases hw : u.node? (k :: path) with
    | some w => exact ⟨w, rfl⟩
    | none =>
      unfold messagesAt at hway
      rw [node?_append, hw] at hway
      exact absurd rfl hway

end ReportTree

namespace Report

open ReportTree

variable {r r' s s' : Report}

theorem same_iff : r.same s = true ↔
    ∀ path, r.tree.messagesAt? path = s.tree.messagesAt? path :=
  ReportTree.same_iff r.distinct s.distinct

theorem same_equivalence : Equivalence fun r s : Report => r.same s = true where
  refl _ := same_iff.2 fun _ => rfl
  symm h := same_iff.2 fun path => (same_iff.1 h path).symm
  trans h h' := same_iff.2 fun path => (same_iff.1 h path).trans (same_iff.1 h' path)

/-! ## What respects sameness -/

theorem merge_same (h : r.same r' = true) (h' : s.same s' = true) :
    (r.merge s).same (r'.merge s') = true := by
  apply same_iff.2
  intro path
  have hr := messagesAt?_merge (a := r.tree) s.distinct path
  have hr' := messagesAt?_merge (a := r'.tree) s'.distinct path
  refine hr.trans (Eq.trans ?_ hr'.symm)
  rw [same_iff.1 h path, same_iff.1 h' path]

theorem under_same (key : String) (h : r.same r' = true) :
    (r.under key).same (r'.under key) = true := by
  apply same_iff.2
  intro path
  cases path with
  | nil => rfl
  | cons k path =>
    show (node [] [(key, r.tree)]).messagesAt? (k :: path) =
      (node [] [(key, r'.tree)]).messagesAt? (k :: path)
    rw [messagesAt?_cons, messagesAt?_cons]
    unfold lookupEntry
    by_cases hk : key = k
    · rw [if_pos hk, if_pos hk]
      exact same_iff.1 h path
    · rw [if_neg hk, if_neg hk]

theorem messagesAt?_branch? (r : Report) (key : String) (path : List String) :
    ((r.branch? key).bind fun b => b.tree.messagesAt? path) = r.tree.messagesAt? (key :: path) := by
  obtain ⟨⟨ms, bs⟩, hd⟩ := r
  rw [messagesAt?_cons]
  unfold branch?
  dsimp only
  split
  · rename_i hnone
    rw [hnone]
    rfl
  · rename_i t hsome
    show t.messagesAt? path = _
    rw [hsome]
    rfl

theorem branch?_same (key : String) (h : r.same r' = true) :
    Option.Rel (fun b b' : Report => b.same b' = true) (r.branch? key) (r'.branch? key) := by
  have hpath : ∀ path, ((r.branch? key).bind fun b => b.tree.messagesAt? path) =
      (r'.branch? key).bind fun b => b.tree.messagesAt? path := by
    intro path
    rw [messagesAt?_branch?, messagesAt?_branch?, same_iff.1 h]
  cases hb : r.branch? key with
  | none =>
    cases hb' : r'.branch? key with
    | none => exact .none
    | some b' =>
      have hroot := hpath []
      rw [hb, hb'] at hroot
      cases hroot
  | some b =>
    cases hb' : r'.branch? key with
    | none =>
      have hroot := hpath []
      rw [hb, hb'] at hroot
      cases hroot
    | some b' =>
      refine .some (same_iff.2 fun path => ?_)
      have hpath := hpath path
      rw [hb, hb'] at hpath
      exact hpath

theorem same_empty_iff : r.same ∅ = true ↔ r.isEmpty = true := by
  obtain ⟨⟨ms, bs⟩, hd⟩ := r
  show (node ms bs).same (node [] []) = true ↔ (node ms bs).isEmpty = true
  cases ms <;> cases bs <;>
    simp [ReportTree.same, ReportTree.isEmpty, ReportTree.messages, branches, allIn]

theorem isEmpty_same (h : r.same r' = true) : r.isEmpty = r'.isEmpty := by
  rw [Bool.eq_iff_iff, ← same_empty_iff, ← same_empty_iff]
  constructor
  · intro hr
    exact same_equivalence.trans (same_equivalence.symm h) hr
  · intro hr'
    exact same_equivalence.trans h hr'

theorem messagesAt_same (h : r.same r' = true) (path : List String) :
    r.messagesAt path = r'.messagesAt path := by
  have hpath := same_iff.1 h path
  exact congrArg (·.getD []) hpath

theorem stable_findings_same (h : r.same r' = true) (path : List String) :
    r.findings.filter (·.path = path) = r'.findings.filter (·.path = path) := by
  rw [filter_path_eq, filter_path_eq, findings_at, findings_at, messagesAt_same h]

/-! ## Back from the findings -/

theorem same_of_messagesAt (hr : r.tree.EveryBranchSpeaks) (hs : s.tree.EveryBranchSpeaks)
    (h : ∀ path, r.messagesAt path = s.messagesAt path) : r.same s = true := by
  apply same_iff.2
  intro path
  have hpath := h path
  unfold Report.messagesAt ReportTree.messagesAt at hpath
  unfold messagesAt?
  cases hv : r.tree.node? path with
  | none =>
    cases hw : s.tree.node? path with
    | none => rfl
    | some w =>
      obtain ⟨v, hv'⟩ := exists_node? hs (fun path => (h path).symm) hw
      rw [hv] at hv'
      cases hv'
  | some v =>
    obtain ⟨w, hw⟩ := exists_node? hr h hv
    rw [hv, hw] at hpath
    rw [hw]
    exact congrArg some hpath

/-- Reports are the same by what stands at their paths, which is an equivalence. Merging, branches,
emptiness and findings respect it, and the findings of reports without silent branches decide it. -/
theorem same_is_congruence :
    (∀ r s : Report, r.same s = true ↔
      ∀ path, r.tree.messagesAt? path = s.tree.messagesAt? path) ∧
    Equivalence (fun r s : Report => r.same s = true) ∧
    (∀ r r' s s' : Report, r.same r' = true → s.same s' = true → ∀ key,
      (r.merge s).same (r'.merge s') = true ∧
      (r.withBranch key s).same (r'.withBranch key s') = true ∧
      Option.Rel (fun b b' : Report => b.same b' = true) (r.branch? key) (r'.branch? key) ∧
      r.isEmpty = r'.isEmpty ∧ r.findings.Perm r'.findings ∧
      ∀ path, r.findings.filter (·.path = path) = r'.findings.filter (·.path = path)) ∧
    ∀ r s : Report, r.tree.EveryBranchSpeaks → s.tree.EveryBranchSpeaks →
      (∀ path, r.findings.filter (·.path = path) = s.findings.filter (·.path = path)) →
      r.same s = true := by
  refine ⟨fun r s => same_iff, same_equivalence, ?_, ?_⟩
  · intro r r' s s' hr hs key
    have hstable := stable_findings_same hr
    exact ⟨merge_same hr hs, merge_same hr (under_same key hs), branch?_same key hr,
      isEmpty_same hr, perm_of_stable hstable, hstable⟩
  · intro r s hr hs h
    apply same_of_messagesAt hr hs
    intro path
    rw [← findings_at, ← findings_at]
    unfold textsAt
    rw [h path]

/-- The same findings in another order: the branches stand the other way round, at the root and
under `x`. -/
theorem same_is_congruence_crossed :
    let r := ofFindings [⟨["x", "p"], "first"⟩, ⟨["x", "q"], "second"⟩, ⟨["y"], "other"⟩]
    let r' := ofFindings [⟨["y"], "other"⟩, ⟨["x", "q"], "second"⟩, ⟨["x", "p"], "first"⟩]
    r.keys ≠ r'.keys ∧ r.same r' = true ∧ (r.merge r').same (r'.merge r) = true ∧
      Option.Rel (fun b b' : Report => b.same b' = true) (r.branch? "x") (r'.branch? "x") ∧
      r.findings.Perm r'.findings ∧ r'.same r = true := by
  intro r r'
  obtain ⟨-, hequiv, hcongr, hback⟩ := same_is_congruence
  have hsame : r.same r' = true := by decide
  obtain ⟨hmerge, -, hbranch, -, hperm, hstable⟩ :=
    hcongr r r' r' r hsame (hequiv.symm hsame) "x"
  have hspeaks := everyBranchSpeaks_ofFindings
  have hsame' := hback r' r (hspeaks _) (hspeaks _) fun path => (hstable path).symm
  exact ⟨by decide, hsame, hmerge, hbranch, hperm, hsame'⟩

end Report

end Vetting
