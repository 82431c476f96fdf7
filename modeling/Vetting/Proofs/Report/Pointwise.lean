import Vetting.Proofs.Report.Grouping

/-!
# Merging path by path

What a merge has at a path is what the first report has there, and then what
the second one has. There is only one report of which that is so: a report is
what can be read of it at its paths, the messages and the keys in their order.
-/

namespace Vetting

namespace ReportTree

mutual

/-- Trees of distinct keys that read alike at every path are equal. -/
theorem eq_of_alike : ∀ {t u : ReportTree}, t.Distinct → u.Distinct →
    (∀ path, t.messagesAt path = u.messagesAt path ∧ t.keysAt path = u.keysAt path) → t = u
  | node ms bs, node ms' bs', ht, hu, h => by
    obtain ⟨hms, hkeys⟩ := h []
    have hbs : bs = bs' := branches_eq_of_alike hkeys ht.1 ht.2 hu.2 fun k path => h (k :: path)
    have hms' : ms = ms' := hms
    rw [hms', hbs]

theorem branches_eq_of_alike : ∀ {bs bs' : Branches}, bs.map (·.1) = bs'.map (·.1) →
    (bs.map (·.1)).Nodup → AllDistinct bs → AllDistinct bs' →
    (∀ k path, (node [] bs).messagesAt (k :: path) = (node [] bs').messagesAt (k :: path) ∧
      (node [] bs).keysAt (k :: path) = (node [] bs').keysAt (k :: path)) → bs = bs'
  | [], [], _, _, _, _, _ => rfl
  | (k, t) :: l, (k', u) :: l', hkeys, hn, hd, hd', h => by
    obtain ⟨rfl, hrest⟩ := List.cons.inj hkeys
    have hk := (List.nodup_cons.1 hn).1
    have htu : t = u := by
      apply eq_of_alike hd.1 hd'.1
      intro path
      simpa [messagesAt_cons, keysAt_cons, lookupEntry] using h k path
    have hl : l = l' := by
      apply branches_eq_of_alike hrest (List.nodup_cons.1 hn).2 hd.2 hd'.2
      intro x path
      by_cases hx : k = x
      · -- the key is used up, so neither rest has anything there
        subst hx
        simp [messagesAt_cons, keysAt_cons, lookupEntry_eq_none.2 hk,
          lookupEntry_eq_none.2 (hrest ▸ hk)]
      · simpa [messagesAt_cons, keysAt_cons, lookupEntry, hx] using h x path
    rw [htu, hl]

end

end ReportTree

namespace Report

theorem stable_findings_merge (r s : Report) (path : List String) :
    (r.merge s).findings.filter (·.path = path) =
      (r.findings ++ s.findings).filter (·.path = path) := by
  rw [filter_path_eq, filter_path_eq, textsAt_append, findings_at, findings_at, findings_at,
    messagesAt_merge]

theorem findings_merge_perm (r s : Report) :
    (r.merge s).findings.Perm (r.findings ++ s.findings) :=
  perm_of_stable (stable_findings_merge r s)

theorem findings_foldl_merge_perm : ∀ (rs : List Report) (r : Report),
    (rs.foldl merge r).findings.Perm (r.findings ++ rs.flatMap findings)
  | [], r => by simp
  | s :: rs, r => by
    have hrs := findings_foldl_merge_perm rs (r.merge s)
    have hmerge := (findings_merge_perm r s).append_right (rs.flatMap findings)
    rw [List.append_assoc] at hmerge
    rw [List.foldl_cons, List.flatMap_cons]
    exact hrs.trans hmerge

theorem findings_mergeAll_perm (rs : List Report) :
    (mergeAll rs).findings.Perm (rs.flatMap findings) :=
  findings_foldl_merge_perm rs ∅

theorem mergeAll_perm {rs rs' : List Report} (h : rs'.Perm rs) :
    (mergeAll rs').findings.Perm (mergeAll rs).findings ∧
      (mergeAll rs').isEmpty = (mergeAll rs).isEmpty := by
  have hfindings := (h.flatMap_right findings).trans (findings_mergeAll_perm rs).symm
  refine ⟨(findings_mergeAll_perm rs').trans hfindings, ?_⟩
  rw [Bool.eq_iff_iff, isEmpty_iff, isEmpty_iff, mergeAll_eq_empty, mergeAll_eq_empty]
  simp only [h.mem_iff]

/-- At every path `t` has what `r` has there, and then what `s` has; a key that both have stands
where `r` has it. -/
structure Joins (r s t : Report) : Prop where
  there : ∀ path, (t.tree.node? path).isSome = true ↔
    (r.tree.node? path).isSome = true ∨ (s.tree.node? path).isSome = true
  messages : ∀ path, t.messagesAt path = r.messagesAt path ++ s.messagesAt path
  keys : ∀ path, t.tree.keysAt path =
    r.tree.keysAt path ++ (s.tree.keysAt path).filter (· ∉ r.tree.keysAt path)

theorem joins_merge (r s : Report) : Joins r s (r.merge s) := by
  refine ⟨?_, messagesAt_merge r s, ?_⟩
  · intro path
    have hnode := ReportTree.node?_merge path (a := r.tree) s.distinct
    show (((r.tree.merge s.tree).node? path).isSome = true) ↔ _
    rw [hnode]
    cases r.tree.node? path <;> cases s.tree.node? path <;> simp
  · intro path
    have hkeys := ReportTree.keysAt_merge (a := r.tree) s.distinct path
    refine hkeys.trans ?_
    simp [List.removeAll]

theorem Joins.unique {r s t u : Report} (ht : Joins r s t) (hu : Joins r s u) : t = u := by
  apply ext
  apply ReportTree.eq_of_alike t.distinct u.distinct
  intro path
  exact ⟨(ht.messages path).trans (hu.messages path).symm, (ht.keys path).trans (hu.keys path).symm⟩

/-- Merging joins two reports path by path, and nothing else does. All findings of both are in the
merge, those of one path in their order, the first report's before the second's. -/
theorem merge_is_pointwise (r s : Report) :
    (∀ t, Joins r s t ↔ t = r.merge s) ∧ (r.merge s).findings.Perm (r.findings ++ s.findings) ∧
      ∀ path, (r.merge s).findings.filter (·.path = path) =
        r.findings.filter (·.path = path) ++ s.findings.filter (·.path = path) := by
  refine ⟨?_, findings_merge_perm r s, ?_⟩
  · intro t
    constructor
    · intro ht
      exact ht.unique (joins_merge r s)
    · intro ht
      rw [ht]
      exact joins_merge r s
  · intro path
    rw [stable_findings_merge, List.filter_append]

end Report

end Vetting
