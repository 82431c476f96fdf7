import Mathlib.Data.List.Induction
import Vetting.Proofs.Lists
import Vetting.Proofs.Report.Pruning

/-!
# Findings grouped by a report

Findings that go through a report come back grouped by their paths. Nothing is
lost or told twice, findings of one path keep their order, and all that is under
one path stands together, the findings of the path itself first and then key by
key, in the order in which the keys first came up.
-/

namespace Vetting

def nextKey? : List String → List String → Option String
  | _, [] => none
  | [], k :: _ => some k
  | k :: path, k' :: way => if k = k' then nextKey? path way else none

/-- The keys that come next after `path`, in the order in which findings first have them. -/
def siblings (path : List String) (fs : List Finding) : List String :=
  (fs.filterMap fun f => nextKey? path f.path).eraseDups

/-- The findings `ys` are `xs` in groups by path. -/
structure Grouping (xs ys : List Finding) : Prop where
  perm : ys.Perm xs
  stable : ∀ path, ys.filter (·.path = path) = xs.filter (·.path = path)
  contiguous : ∀ path, ys.filter (path <+: ·.path) <:+: ys
  own_first : ys.Pairwise fun f g => g.path <+: f.path → g.path = f.path
  order : ∀ path, siblings path ys = siblings path xs

theorem filter_path_eq (path : List String) (fs : List Finding) :
    fs.filter (·.path = path) = (Report.textsAt path fs).map (⟨path, ·⟩) := by
  have h : ∀ f ∈ fs.filter (·.path = path), (⟨path, f.text⟩ : Finding) = f := by
    intro f hf
    have hpath : f.path = path := by simpa using (List.mem_filter.1 hf).2
    rw [← hpath]
  unfold Report.textsAt
  rw [List.map_map]
  exact ((List.map_congr_left h).trans (List.map_id' _)).symm

theorem perm_of_stable {xs ys : List Finding}
    (h : ∀ path, ys.filter (·.path = path) = xs.filter (·.path = path)) : ys.Perm xs := by
  apply List.perm_iff_count.2
  intro f
  have hcount : ∀ zs : List Finding, (zs.filter (·.path = f.path)).count f = zs.count f :=
    fun zs => List.count_filter (by simp)
  rw [← hcount ys, h f.path, hcount xs]

namespace ReportTree

/-! ## Keys at a path -/

def keysAt (t : ReportTree) (path : List String) : List String :=
  ((t.node? path).map keys).getD []

theorem keysAt_cons (ms : List String) (bs : Branches) (k : String) (path : List String) :
    (node ms bs).keysAt (k :: path) = ((lookupEntry k bs).map (·.keysAt path)).getD [] := by
  unfold keysAt
  rw [node?]
  cases lookupEntry k bs <;> rfl

theorem distinct_of_node? : ∀ {path : List String} {t u : ReportTree}, t.Distinct →
    t.node? path = some u → u.Distinct
  | [], t, u, ht, h => by
    cases h
    exact ht
  | k :: path, node ms bs, u, ht, h => by
    rw [node?] at h
    obtain ⟨v, hv, hu⟩ := Option.bind_eq_some_iff.1 h
    exact distinct_of_node? (distinct_of_lookupEntry ht.2 hv) hu

theorem keys_mergeBranches : ∀ (bs : Branches) {bs' : Branches}, (bs'.map (·.1)).Nodup →
    (mergeBranches bs bs').map (·.1) = bs.map (·.1) ++ (bs'.map (·.1)).removeAll (bs.map (·.1))
  | bs, [], _ => by simp [mergeBranches, List.removeAll]
  | bs, (k, t) :: l, hn => by
    rw [List.map_cons, List.nodup_cons] at hn
    have hl := keys_mergeBranches (alterEntry k t.onto bs) hn.2
    rw [mergeBranches_cons, hl, keys_alterEntry]
    by_cases hk : k ∈ bs.map (·.1)
    · have hthere : (bs.map (·.1)).contains k = true := by simpa using hk
      rw [if_pos hk, List.map_cons, List.cons_removeAll, hthere]
      rfl
    · -- `k` goes behind the keys that are there, and is no key of the rest
      have hrest : (l.map (·.1)).removeAll (bs.map (·.1) ++ [k]) =
          (l.map (·.1)).removeAll (bs.map (·.1)) := by
        unfold List.removeAll
        apply List.filter_congr
        intro x hx
        have hne : x ≠ k := fun h => hn.1 (h ▸ hx)
        simp [hne]
      have hnew : (bs.map (·.1)).contains k = false := by simpa using hk
      rw [if_neg hk, hrest, List.map_cons, List.cons_removeAll, hnew, List.append_assoc]
      rfl

theorem keysAt_merge {a b : ReportTree} (hb : b.Distinct) (path : List String) :
    (a.merge b).keysAt path = a.keysAt path ++ (b.keysAt path).removeAll (a.keysAt path) := by
  unfold keysAt
  rw [node?_merge path hb]
  cases ha : a.node? path with
  | none =>
    cases b.node? path with
    | none => rfl
    | some v => exact (List.filter_eq_self.2 fun _ _ => rfl).symm
  | some u =>
    cases hv : b.node? path with
    | none => simp [List.removeAll]
    | some v =>
      have hdistinct := distinct_of_node? hb hv
      cases u with
      | node ms bs =>
        cases v with
        | node ms' bs' =>
          have hkeys := keys_mergeBranches bs hdistinct.1
          simp only [Option.merge_some_some, Option.map_some, Option.getD_some, merge]
          exact hkeys

theorem everyBranchSpeaks_merge {a b : ReportTree} (hd : b.Distinct) (ha : a.EveryBranchSpeaks)
    (hb : b.EveryBranchSpeaks) : (a.merge b).EveryBranchSpeaks := by
  intro key path w hw
  rw [node?_merge (key :: path) hd] at hw
  cases hu : a.node? (key :: path) with
  | none =>
    rw [hu, Option.merge_none_left] at hw
    exact hb key path w hw
  | some u =>
    cases hv : b.node? (key :: path) with
    | none =>
      rw [hu, hv, Option.merge_none_right] at hw
      cases hw
      exact ha key path _ hu
    | some v =>
      rw [hu, hv] at hw
      cases hw
      obtain ⟨q, hq⟩ := ha key path u hu
      refine ⟨q, fun h => hq ?_⟩
      rw [messagesAt_merge (distinct_of_node? hd hv)] at h
      exact (List.append_eq_nil_iff.1 h).1

end ReportTree

namespace Report

open ReportTree

theorem nodup_keysAt (r : Report) (path : List String) : (r.tree.keysAt path).Nodup := by
  unfold keysAt
  cases h : r.tree.node? path with
  | none => exact .nil
  | some t =>
    have hdistinct := distinct_of_node? r.distinct h
    cases t
    exact hdistinct.1

theorem keysAt_mergeAll (path : List String) (rs : List Report) :
    (mergeAll rs).tree.keysAt path = (rs.flatMap (·.tree.keysAt path)).eraseDups := by
  induction rs using List.reverseRecOn with
  | nil => cases path <;> rfl
  | append_singleton rs r ih =>
    have hmerge : mergeAll (rs ++ [r]) = (mergeAll rs).merge r := by
      unfold mergeAll
      rw [List.foldl_append]
      rfl
    have hnew : (r.tree.keysAt path).removeAll (rs.flatMap (·.tree.keysAt path)).eraseDups =
        (r.tree.keysAt path).removeAll (rs.flatMap (·.tree.keysAt path)) := by
      apply List.filter_congr
      intro key _
      simp [List.mem_eraseDups]
    rw [hmerge]
    refine (keysAt_merge r.distinct path).trans ?_
    rw [ih, hnew, List.flatMap_append, List.eraseDups_append]
    congr 1
    rw [List.flatMap_singleton, eraseDups_eq_self]
    exact (r.nodup_keysAt path).filter _

/-! ## One finding -/

theorem messagesAt_under (key k : String) (path : List String) (r : Report) :
    (r.under key).messagesAt (k :: path) = if key = k then r.messagesAt path else [] := by
  show (node [] [(key, r.tree)]).messagesAt (k :: path) = _
  rw [messagesAt_cons, lookupEntry]
  by_cases h : key = k
  · rw [if_pos h, if_pos h]
    rfl
  · rw [if_neg h, if_neg h]
    rfl

theorem messagesAt_atPath (m : String) : ∀ path way : List String,
    (atPath way m).messagesAt path = if way = path then [m] else []
  | [], [] => rfl
  | k :: path, [] => rfl
  | [], k :: way => by
    rw [atPath_cons, if_neg (by simp)]
    rfl
  | k' :: path, k :: way => by
    rw [atPath_cons, messagesAt_under, messagesAt_atPath m path way]
    by_cases hk : k = k'
    · simp [hk]
    · simp [hk]

theorem keysAt_atPath (m : String) : ∀ path way : List String,
    (atPath way m).tree.keysAt path = (nextKey? path way).toList
  | [], [] => rfl
  | k :: path, [] => rfl
  | [], k :: way => by
    rw [atPath_cons]
    rfl
  | k' :: path, k :: way => by
    have ih := keysAt_atPath m path way
    rw [atPath_cons, nextKey?]
    show (node [] [(k, (atPath way m).tree)]).keysAt (k' :: path) = _
    rw [keysAt_cons, lookupEntry]
    by_cases hk : k = k'
    · rw [if_pos hk, if_pos hk.symm, ← ih]
      rfl
    · rw [if_neg hk, if_neg (Ne.symm hk)]
      rfl

theorem everyBranchSpeaks_atPath (m : String) : ∀ path : List String,
    (atPath path m).tree.EveryBranchSpeaks
  | [] => by
    apply everyBranchSpeaks_node.2
    intro k u hu
    cases hu
  | key :: path => by
    have hspeaks : (atPath path m).messagesAt path = [m] := by
      rw [messagesAt_atPath, if_pos rfl]
    rw [atPath_cons]
    apply everyBranchSpeaks_node.2
    intro k u hu
    unfold lookupEntry at hu
    by_cases hk : key = k
    · rw [if_pos hk] at hu
      cases hu
      refine ⟨⟨path, fun h => ?_⟩, everyBranchSpeaks_atPath m path⟩
      rw [messagesAt, h] at hspeaks
      cases hspeaks
    · rw [if_neg hk] at hu
      cases hu

/-! ## Lists of findings -/

theorem messagesAt_ofFindings (path : List String) (fs : List Finding) :
    (ofFindings fs).messagesAt path = textsAt path fs := by
  induction fs with
  | nil => exact messagesAt_empty path
  | cons f fs ih =>
    rw [ofFindings_cons, messagesAt_merge, messagesAt_atPath, ih]
    unfold textsAt
    by_cases h : f.path = path
    · simp [h]
    · simp [h]

theorem keysAt_ofFindings (path : List String) (fs : List Finding) :
    (ofFindings fs).tree.keysAt path = siblings path fs := by
  have hall : ofFindings fs = mergeAll (fs.map fun f => atPath f.path f.text) := by
    unfold ofFindings mergeAll
    rw [List.foldl_map]
  rw [hall, keysAt_mergeAll, siblings, List.filterMap_eq_flatMap_toList, List.flatMap_map]
  simp only [keysAt_atPath]

theorem everyBranchSpeaks_ofFindings (fs : List Finding) :
    (ofFindings fs).tree.EveryBranchSpeaks := by
  induction fs with
  | nil =>
    apply everyBranchSpeaks_node.2
    intro k u hu
    cases hu
  | cons f fs ih =>
    rw [ofFindings_cons]
    have hf := everyBranchSpeaks_atPath f.text f.path
    exact everyBranchSpeaks_merge (ofFindings fs).distinct hf ih

theorem ofFindings_findings_ofFindings (fs : List Finding) :
    ofFindings (ofFindings fs).findings = ofFindings fs := by
  have htree := tree_ofFindings (ofFindings fs).tree (ofFindings fs).distinct
  have hspeaks := everyBranchSpeaks_ofFindings fs
  have hpruned := (pruned_eq_self_iff _ (ofFindings fs).distinct).2 hspeaks
  exact ext (htree.trans hpruned)

/-! ## The order of findings -/

theorem exists_key_of_mem {bs : Branches} {f : Finding} (h : f ∈ findingsOfBranches [] bs) :
    ∃ k ∈ bs.map (·.1), ∃ way, f.path = k :: way := by
  obtain ⟨k, hk, way, hway⟩ := prefix_of_mem_findingsOfBranches h
  exact ⟨k, hk, way, hway.symm⟩

theorem filter_under (key k : String) (path : List String) (fs : List Finding) :
    (fs.map (Finding.under key)).filter (k :: path <+: ·.path) =
      if k = key then (fs.filter (path <+: ·.path)).map (Finding.under key) else [] := by
  by_cases h : k = key
  · subst h
    rw [if_pos rfl, List.filter_map]
    congr 1
    apply List.filter_congr
    intro f _
    simp [Finding.under, List.cons_prefix_cons]
  · rw [if_neg h, List.filter_eq_nil_iff]
    intro g hg
    obtain ⟨f, _, rfl⟩ := List.mem_map.1 hg
    simp [Finding.under, List.cons_prefix_cons, h]

mutual

theorem contiguous_findingsAt : ∀ (path : List String) (t : ReportTree), t.Distinct →
    (findingsAt [] t).filter (path <+: ·.path) <:+: findingsAt [] t
  | [], t, _ => by
    have hall : (findingsAt [] t).filter ([] <+: ·.path) = findingsAt [] t := by
      apply List.filter_eq_self.2
      intro f _
      simp
    simp only [hall, List.infix_rfl]
  | k :: path, node ms bs, h => by
    have hbs := contiguous_findingsOfBranches k path bs h.1 h.2
    have hown : (ms.map fun m => (⟨[], m⟩ : Finding)).filter (k :: path <+: ·.path) = [] := by
      apply List.filter_eq_nil_iff.2
      intro f hf
      obtain ⟨m, _, rfl⟩ := List.mem_map.1 hf
      simp
    unfold findingsAt
    rw [List.filter_append, hown, List.nil_append]
    exact hbs.trans (List.suffix_append _ _).isInfix

theorem contiguous_findingsOfBranches (k : String) (path : List String) : ∀ bs : Branches,
    (bs.map (·.1)).Nodup → AllDistinct bs →
    (findingsOfBranches [] bs).filter (k :: path <+: ·.path) <:+: findingsOfBranches [] bs
  | [], _, _ => List.infix_rfl
  | (key, t) :: l, hn, hd => by
    rw [List.map_cons, List.nodup_cons] at hn
    rw [findingsOfBranches_nil_cons, List.filter_append, filter_under]
    by_cases hk : k = key
    · subst hk
      have ht := contiguous_findingsAt path t hd.1
      have hrest : (findingsOfBranches [] l).filter (k :: path <+: ·.path) = [] := by
        apply List.filter_eq_nil_iff.2
        intro f hf
        obtain ⟨k', hk', way, hway⟩ := exists_key_of_mem hf
        have hne : k ≠ k' := fun h => hn.1 (h ▸ hk')
        simp [hway, List.cons_prefix_cons, hne]
      rw [if_pos rfl, hrest, List.append_nil]
      exact (ht.map (Finding.under k)).trans (List.prefix_append _ _).isInfix
    · have hl := contiguous_findingsOfBranches k path l hn.2 hd.2
      rw [if_neg hk, List.nil_append]
      exact hl.trans (List.suffix_append _ _).isInfix

end

mutual

theorem own_first_findingsAt : ∀ t : ReportTree, t.Distinct →
    (findingsAt [] t).Pairwise fun f g => g.path <+: f.path → g.path = f.path
  | node ms bs, h => by
    have hbs := own_first_findingsOfBranches bs h.1 h.2
    unfold findingsAt
    apply List.pairwise_append.2
    refine ⟨?_, hbs, ?_⟩
    · apply List.pairwise_map.2
      apply List.pairwise_iff_getElem.2
      intro i j _ _ _ _
      rfl
    · intro f hf g hg hpre
      obtain ⟨m, _, rfl⟩ := List.mem_map.1 hf
      exact List.prefix_nil.1 hpre

theorem own_first_findingsOfBranches : ∀ bs : Branches, (bs.map (·.1)).Nodup → AllDistinct bs →
    (findingsOfBranches [] bs).Pairwise fun f g => g.path <+: f.path → g.path = f.path
  | [], _, _ => .nil
  | (k, t) :: l, hn, hd => by
    rw [List.map_cons, List.nodup_cons] at hn
    have ht := own_first_findingsAt t hd.1
    have hl := own_first_findingsOfBranches l hn.2 hd.2
    rw [findingsOfBranches_nil_cons]
    apply List.pairwise_append.2
    refine ⟨?_, hl, ?_⟩
    · apply List.pairwise_map.2
      apply ht.imp
      intro f g hfg hpre
      have hway := hfg (List.cons_prefix_cons.1 hpre).2
      simp [Finding.under, hway]
    · intro f hf g hg hpre
      obtain ⟨f', _, rfl⟩ := List.mem_map.1 hf
      obtain ⟨k', hk', way, hway⟩ := exists_key_of_mem hg
      rw [hway] at hpre
      have hk := (List.cons_prefix_cons.1 hpre).1
      exact absurd (hk ▸ hk') hn.1

end

/-- Findings come back from a report in groups by path. Reports of two lists merge to the report of
both, and a report of findings can be rebuilt from what it gives back. -/
theorem grouping_findings (xs ys : List Finding) :
    Grouping xs (ofFindings xs).findings ∧
      ofFindings (xs ++ ys) = (ofFindings xs).merge (ofFindings ys) ∧
      ofFindings (ofFindings xs).findings = ofFindings xs := by
  have hdistinct := (ofFindings xs).distinct
  have hsame := ofFindings_findings_ofFindings xs
  have hstable : ∀ path, (ofFindings xs).findings.filter (·.path = path) =
      xs.filter (·.path = path) := by
    intro path
    rw [filter_path_eq, findings_at, messagesAt_ofFindings, ← filter_path_eq]
  refine ⟨⟨perm_of_stable hstable, hstable, ?_, own_first_findingsAt _ hdistinct, ?_⟩,
    ofFindings_append xs ys, hsame⟩
  · intro path
    exact contiguous_findingsAt path (ofFindings xs).tree hdistinct
  · intro path
    rw [← keysAt_ofFindings, hsame, keysAt_ofFindings]

end Report

end Vetting
