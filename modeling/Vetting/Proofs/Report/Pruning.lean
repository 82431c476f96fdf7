import Vetting.Proofs.Report.Monoid

/-!
# Reports rebuilt from their findings

A report that is rebuilt from its findings has lost its silent branches, those
without a message at any depth, and nothing else: every other branch stands
where it stood. Findings come and go with the reports that they are taken from:
those of two lists together make the merge of two reports, and those of one
branch make a report under its key.
-/

namespace Vetting

def Finding.under (key : String) (f : Finding) : Finding := ⟨key :: f.path, f.text⟩

namespace ReportTree

mutual

def silent : ReportTree → Bool
  | node ms bs => ms.isEmpty && allSilent bs

def allSilent : Branches → Bool
  | [] => true
  | (_, t) :: l => t.silent && allSilent l

end

mutual

/-- The tree without its silent branches, at every depth. -/
def pruned : ReportTree → ReportTree
  | node ms bs => node ms (prunedBranches bs)

def prunedBranches : Branches → Branches
  | [] => []
  | (k, t) :: l => if t.silent then prunedBranches l else (k, t.pruned) :: prunedBranches l

end

/-- A message at the end of some path. -/
def Speaks (t : ReportTree) : Prop := ∃ path, t.messagesAt path ≠ []

def EveryBranchSpeaks (t : ReportTree) : Prop :=
  ∀ key path u, t.node? (key :: path) = some u → u.Speaks

end ReportTree

namespace Report

open ReportTree

/-! ## Findings of branches -/

mutual

theorem findingsAt_cons (key : String) (path : List String) : ∀ t : ReportTree,
    findingsAt (key :: path) t = (findingsAt path t).map (Finding.under key)
  | node ms bs => by
    unfold findingsAt
    rw [findingsOfBranches_cons key path bs, List.map_append, List.map_map]
    rfl

theorem findingsOfBranches_cons (key : String) (path : List String) : ∀ bs : Branches,
    findingsOfBranches (key :: path) bs = (findingsOfBranches path bs).map (Finding.under key)
  | [] => rfl
  | (k, t) :: l => by
    have ht := findingsAt_cons key (path ++ [k]) t
    unfold findingsOfBranches
    rw [findingsOfBranches_cons key path l, List.cons_append, ht, List.map_append]

end

theorem findingsOfBranches_nil_cons (k : String) (t : ReportTree) (l : Branches) :
    findingsOfBranches [] ((k, t) :: l) =
      (findingsAt [] t).map (Finding.under k) ++ findingsOfBranches [] l := by
  rw [findingsOfBranches, List.nil_append, findingsAt_cons]

theorem findings_under (key : String) (r : Report) :
    (r.under key).findings = r.findings.map (Finding.under key) := by
  have hbranch : (r.under key).findings = findingsOfBranches [] [(key, r.tree)] := rfl
  rw [hbranch, findingsOfBranches_nil_cons, findingsOfBranches, List.append_nil]
  rfl

theorem findings_message_merge (m : String) (r : Report) :
    ((message m).merge r).findings = ⟨[], m⟩ :: r.findings := by
  obtain ⟨⟨ms, bs⟩, hd⟩ := r
  have hbs : ((([] : Branches) ++ bs).map (·.1)).Nodup := hd.1
  have htree : (node [m] []).merge (node ms bs) = node (m :: ms) bs := by
    rw [ReportTree.merge, mergeBranches_of_disjoint hbs]
    rfl
  show findingsAt [] ((node [m] []).merge (node ms bs)) = ⟨[], m⟩ :: findingsAt [] (node ms bs)
  rw [htree, findingsAt, findingsAt]
  rfl

/-! ## Reports of findings -/

theorem foldl_merge_atPath (fs : List Finding) : ∀ r : Report,
    fs.foldl (fun r f => r.merge (atPath f.path f.text)) r = r.merge (ofFindings fs) := by
  induction fs with
  | nil =>
    intro r
    exact (merge_empty r).symm
  | cons f fs ih =>
    intro r
    have hr := ih (r.merge (atPath f.path f.text))
    have hempty := ih ((∅ : Report).merge (atPath f.path f.text))
    unfold ofFindings
    rw [List.foldl_cons, List.foldl_cons, hr, hempty, empty_merge, merge_assoc]

theorem ofFindings_append (fs gs : List Finding) :
    ofFindings (fs ++ gs) = (ofFindings fs).merge (ofFindings gs) := by
  have h := foldl_merge_atPath gs (ofFindings fs)
  rw [← h]
  unfold ofFindings
  rw [List.foldl_append]

theorem ofFindings_singleton (f : Finding) : ofFindings [f] = atPath f.path f.text :=
  empty_merge _

theorem ofFindings_cons (f : Finding) (fs : List Finding) :
    ofFindings (f :: fs) = (atPath f.path f.text).merge (ofFindings fs) := by
  rw [← List.singleton_append, ofFindings_append, ofFindings_singleton]

theorem atPath_cons (key : String) (path : List String) (m : String) :
    atPath (key :: path) m = (atPath path m).under key :=
  empty_merge _

theorem under_merge (key : String) (r s : Report) :
    (r.merge s).under key = (r.under key).merge (s.under key) := by
  apply ext
  show node [] [(key, r.tree.merge s.tree)] =
    (node [] [(key, r.tree)]).merge (node [] [(key, s.tree)])
  simp [ReportTree.merge, mergeBranches, alterEntry]

theorem ofFindings_own (ms : List String) : ofFindings (ms.map (⟨[], ·⟩)) = ofMessages ms := by
  induction ms with
  | nil => rfl
  | cons m ms ih =>
    rw [List.map_cons, ofFindings_cons, ih]
    rfl

theorem ofFindings_under (key : String) : ∀ {fs : List Finding}, fs ≠ [] →
    ofFindings (fs.map (Finding.under key)) = (ofFindings fs).under key
  | [], h => absurd rfl h
  | [f], _ => by
    rw [List.map_singleton, ofFindings_singleton, ofFindings_singleton]
    exact atPath_cons key f.path f.text
  | f :: g :: fs, _ => by
    have ih : ofFindings ((g :: fs).map (Finding.under key)) = (ofFindings (g :: fs)).under key :=
      ofFindings_under key (List.cons_ne_nil g fs)
    have hf : atPath (f.under key).path (f.under key).text = (atPath f.path f.text).under key :=
      atPath_cons key f.path f.text
    rw [List.map_cons, ofFindings_cons, ih, hf, ← under_merge, ← ofFindings_cons]

/-! ## Silent branches -/

mutual

theorem silent_iff (path : List String) : ∀ t : ReportTree,
    t.silent = true ↔ findingsAt path t = []
  | node ms bs => by
    rw [silent, findingsAt, Bool.and_eq_true, List.append_eq_nil_iff, List.map_eq_nil_iff,
      List.isEmpty_iff, allSilent_iff path bs]

theorem allSilent_iff (path : List String) : ∀ bs : Branches,
    allSilent bs = true ↔ findingsOfBranches path bs = []
  | [] => by simp [allSilent, findingsOfBranches]
  | (k, t) :: l => by
    rw [allSilent, findingsOfBranches, Bool.and_eq_true, List.append_eq_nil_iff,
      silent_iff (path ++ [k]) t, allSilent_iff path l]

end

theorem silent_eq_false_iff {t : ReportTree} (h : t.Distinct) : t.silent = false ↔ t.Speaks := by
  have hfindings := findings_eq_nil_iff (r := ⟨t, h⟩)
  have hsilent := (silent_iff [] t).trans hfindings
  rw [← Bool.not_eq_true, hsilent]
  unfold Speaks
  exact Classical.not_forall

theorem keys_prunedBranches : ∀ bs : Branches,
    ((prunedBranches bs).map (·.1)).Sublist (bs.map (·.1))
  | [] => .slnil
  | (k, t) :: l => by
    unfold prunedBranches
    by_cases h : t.silent = true
    · rw [if_pos h]
      exact (keys_prunedBranches l).cons k
    · rw [if_neg h]
      exact (keys_prunedBranches l).cons_cons k

mutual

theorem tree_ofFindings : ∀ t : ReportTree, t.Distinct →
    (ofFindings (findingsAt [] t)).tree = t.pruned
  | node ms bs, h => by
    have hbs := tree_ofFindings_branches bs h.1 h.2
    have hkeys : ((([] : Branches) ++ prunedBranches bs).map (·.1)).Nodup :=
      (keys_prunedBranches bs).nodup h.1
    rw [findingsAt, ofFindings_append, ofFindings_own]
    show (node ms []).merge (ofFindings (findingsOfBranches [] bs)).tree = _
    rw [hbs, ReportTree.merge, mergeBranches_of_disjoint hkeys, pruned]
    simp

theorem tree_ofFindings_branches : ∀ bs : Branches, (bs.map (·.1)).Nodup → AllDistinct bs →
    (ofFindings (findingsOfBranches [] bs)).tree = node [] (prunedBranches bs)
  | [], _, _ => rfl
  | (k, t) :: l, hn, hd => by
    rw [List.map_cons, List.nodup_cons] at hn
    have hl := tree_ofFindings_branches l hn.2 hd.2
    rw [findingsOfBranches_nil_cons, prunedBranches]
    by_cases hs : t.silent = true
    · rw [if_pos hs, (silent_iff [] t).1 hs]
      exact hl
    · have ht := tree_ofFindings t hd.1
      have hne : findingsAt [] t ≠ [] := fun h => hs ((silent_iff [] t).2 h)
      have hkeys : (([(k, t.pruned)] ++ prunedBranches l).map (·.1)).Nodup := by
        rw [List.map_append, List.map_singleton, List.singleton_append, List.nodup_cons]
        have hsub := keys_prunedBranches l
        exact ⟨fun hk => hn.1 (hsub.subset hk), hsub.nodup hn.2⟩
      rw [if_neg hs, ofFindings_append, ofFindings_under k hne]
      show (node [] [(k, (ofFindings (findingsAt [] t)).tree)]).merge
        (ofFindings (findingsOfBranches [] l)).tree = _
      rw [ht, hl, ReportTree.merge, mergeBranches_of_disjoint hkeys]
      rfl

end

mutual

theorem findingsAt_pruned (path : List String) : ∀ t : ReportTree,
    findingsAt path t.pruned = findingsAt path t
  | node ms bs => by
    rw [pruned, findingsAt, findingsAt, findingsOfBranches_pruned path bs]

theorem findingsOfBranches_pruned (path : List String) : ∀ bs : Branches,
    findingsOfBranches path (prunedBranches bs) = findingsOfBranches path bs
  | [] => rfl
  | (k, t) :: l => by
    have hl := findingsOfBranches_pruned path l
    unfold prunedBranches
    by_cases hs : t.silent = true
    · rw [if_pos hs, hl, findingsOfBranches, (silent_iff (path ++ [k]) t).1 hs, List.nil_append]
    · rw [if_neg hs, findingsOfBranches, findingsOfBranches, findingsAt_pruned (path ++ [k]) t, hl]

end

/-! ## Trees that are pruned -/

theorem forall_lookupEntry_cons {P : String → ReportTree → Prop} {k : String} {t : ReportTree}
    {l : Branches} (hk : k ∉ l.map (·.1)) :
    (∀ x u, lookupEntry x ((k, t) :: l) = some u → P x u) ↔
      P k t ∧ ∀ x u, lookupEntry x l = some u → P x u := by
  constructor
  · intro h
    refine ⟨h k t (by simp [lookupEntry]), fun x u hu => h x u ?_⟩
    have hne : k ≠ x := by
      intro heq
      rw [← heq, lookupEntry_eq_none.2 hk] at hu
      cases hu
    rw [lookupEntry, if_neg hne]
    exact hu
  · intro h x u hu
    unfold lookupEntry at hu
    by_cases hx : k = x
    · rw [if_pos hx] at hu
      cases hu
      exact hx ▸ h.1
    · rw [if_neg hx] at hu
      exact h.2 x u hu

theorem everyBranchSpeaks_node {ms : List String} {bs : Branches} :
    (node ms bs).EveryBranchSpeaks ↔
      ∀ k u, lookupEntry k bs = some u → u.Speaks ∧ u.EveryBranchSpeaks := by
  unfold EveryBranchSpeaks
  constructor
  · intro h k u hu
    refine ⟨h k [] u ?_, fun key path v hv => h k (key :: path) v ?_⟩
    · rw [node?, hu]
      rfl
    · rw [node?, hu]
      exact hv
  · intro h k path v hv
    rw [node?] at hv
    obtain ⟨u, hu, hv⟩ := Option.bind_eq_some_iff.1 hv
    have hspeaks := h k u hu
    cases path with
    | nil =>
      cases hv
      exact hspeaks.1
    | cons key path => exact hspeaks.2 key path v hv

theorem length_prunedBranches : ∀ bs : Branches, (prunedBranches bs).length ≤ bs.length := by
  intro bs
  have h := (keys_prunedBranches bs).length_le
  simpa using h

mutual

theorem pruned_eq_self_iff : ∀ t : ReportTree, t.Distinct →
    (t.pruned = t ↔ t.EveryBranchSpeaks)
  | node ms bs, h => by
    have hbs := prunedBranches_eq_self_iff bs h.1 h.2
    rw [everyBranchSpeaks_node, ← hbs]
    simp [pruned]

theorem prunedBranches_eq_self_iff : ∀ bs : Branches, (bs.map (·.1)).Nodup → AllDistinct bs →
    (prunedBranches bs = bs ↔ ∀ k u, lookupEntry k bs = some u → u.Speaks ∧ u.EveryBranchSpeaks)
  | [], _, _ => by simp [prunedBranches, lookupEntry]
  | (k, t) :: l, hn, hd => by
    rw [List.map_cons, List.nodup_cons] at hn
    have ht := pruned_eq_self_iff t hd.1
    have hl := prunedBranches_eq_self_iff l hn.2 hd.2
    have hspeaks := silent_eq_false_iff hd.1
    rw [forall_lookupEntry_cons hn.1, ← hl, ← ht, ← hspeaks, prunedBranches]
    by_cases hs : t.silent = true
    · -- the branch is left out, and the rest cannot make up for it
      have hlt := length_prunedBranches l
      have hne : prunedBranches l ≠ (k, t) :: l := by
        intro h
        rw [h, List.length_cons] at hlt
        omega
      simp [hs, hne]
    · simp [hs]

end

/-- A report that is rebuilt from its findings is the report without its silent branches. So it is
the same just if every branch speaks, and it has the same findings always. -/
theorem ofFindings_findings (r : Report) :
    (ofFindings r.findings).tree = r.tree.pruned ∧
      (ofFindings r.findings = r ↔ r.tree.EveryBranchSpeaks) ∧
      (ofFindings r.findings).findings = r.findings := by
  have htree : (ofFindings r.findings).tree = r.tree.pruned := tree_ofFindings r.tree r.distinct
  refine ⟨htree, ?_, ?_⟩
  · rw [← pruned_eq_self_iff r.tree r.distinct, ← htree]
    exact ⟨fun h => congrArg tree h, ext⟩
  · show findingsAt [] (ofFindings r.findings).tree = findingsAt [] r.tree
    rw [htree, findingsAt_pruned]

end Report

end Vetting
