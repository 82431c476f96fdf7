import Vetting.Proofs.Report.Merge

/-!
# Reports under merging

Merging is associative, with the order of branches at every node, and the empty
report is neutral on both sides. Associativity needs the keys of the second and
of the third tree to be distinct, and merging keeps keys distinct.
-/

namespace Vetting

namespace ReportTree

/-- What stands under a key when `t` has been merged in there. -/
def onto (t : ReportTree) : Option ReportTree → ReportTree
  | none => t
  | some u => u.merge t

theorem mergeBranches_nil (bs : Branches) : mergeBranches bs [] = bs := by
  rw [mergeBranches]

theorem mergeBranches_cons (bs : Branches) (k : String) (t : ReportTree) (l : Branches) :
    mergeBranches bs ((k, t) :: l) = mergeBranches (alterEntry k t.onto bs) l := by
  have h : (fun | none => t | some u => u.merge t : Option ReportTree → ReportTree) = t.onto := by
    funext o
    cases o <;> rfl
  rw [mergeBranches]
  exact congrArg (fun f => mergeBranches (alterEntry k f bs) l) h

theorem mem_keys_alterEntry (k : String) (f : Option ReportTree → ReportTree) (bs : Branches) :
    k ∈ (alterEntry k f bs).map (·.1) := by
  rw [keys_alterEntry]
  by_cases h : k ∈ bs.map (·.1)
  · rw [if_pos h]
    exact h
  · rw [if_neg h]
    simp

theorem mergeBranches_alterEntry {k : String} {f : Option ReportTree → ReportTree} :
    ∀ {bs l : Branches}, k ∈ bs.map (·.1) → k ∉ l.map (·.1) →
      mergeBranches (alterEntry k f bs) l = alterEntry k f (mergeBranches bs l)
  | bs, [], _, _ => by rw [mergeBranches_nil, mergeBranches_nil]
  | bs, (k', t) :: l, hk, hl => by
    simp only [List.map_cons, List.mem_cons, not_or] at hl
    have hk' : k ∈ (alterEntry k' t.onto bs).map (·.1) := by
      rw [keys_alterEntry]
      by_cases h : k' ∈ bs.map (·.1)
      · rw [if_pos h]
        exact hk
      · rw [if_neg h]
        exact List.mem_append_left _ hk
    rw [mergeBranches_cons, mergeBranches_cons, ← alterEntry_comm f t.onto hl.1 hk]
    exact mergeBranches_alterEntry hk' hl.2

theorem mergeBranches_onto {k : String} {u : ReportTree}
    (hu : ∀ s t : ReportTree, t.Distinct → (s.merge t).merge u = s.merge (t.merge u)) :
    ∀ {as bs : Branches}, (bs.map (·.1)).Nodup → AllDistinct bs →
      mergeBranches as (alterEntry k u.onto bs) = alterEntry k u.onto (mergeBranches as bs)
  | as, [], _, _ => by
    rw [mergeBranches_nil]
    show mergeBranches as [(k, u)] = _
    rw [mergeBranches_cons, mergeBranches_nil]
  | as, (k', t) :: l, hn, hd => by
    rw [List.map_cons, List.nodup_cons] at hn
    by_cases hk : k' = k
    · subst hk
      -- `t` has entered the key, so what comes after it does not move the key
      have hsame : alterEntry k' u.onto (alterEntry k' t.onto as) =
          alterEntry k' (t.merge u).onto as := by
        rw [alterEntry_alterEntry]
        congr 1
        funext o
        cases o with
        | none => rfl
        | some s => exact hu s t hd.1
      have hkey := mem_keys_alterEntry k' t.onto as
      have hhead : alterEntry k' u.onto ((k', t) :: l) = (k', t.merge u) :: l := by
        simp [alterEntry, onto]
      rw [hhead, mergeBranches_cons, mergeBranches_cons, ← mergeBranches_alterEntry hkey hn.1,
        hsame]
    · have hrest : alterEntry k u.onto ((k', t) :: l) = (k', t) :: alterEntry k u.onto l := by
        simp [alterEntry, hk]
      rw [hrest, mergeBranches_cons, mergeBranches_cons]
      exact mergeBranches_onto hu hn.2 hd.2

mutual

theorem merge_assoc : ∀ {c : ReportTree} (a b : ReportTree), b.Distinct → c.Distinct →
    (a.merge b).merge c = a.merge (b.merge c)
  | node ms cs, node ms₁ as, node ms₂ bs, hb, hc => by
    simp only [merge, List.append_assoc]
    rw [mergeBranches_assoc as bs hb.1 hb.2 hc.2]

theorem mergeBranches_assoc : ∀ {cs : Branches} (as bs : Branches), (bs.map (·.1)).Nodup →
    AllDistinct bs → AllDistinct cs →
    mergeBranches (mergeBranches as bs) cs = mergeBranches as (mergeBranches bs cs)
  | [], as, bs, _, _, _ => by rw [mergeBranches_nil, mergeBranches_nil]
  | (k, u) :: cs, as, bs, hn, hd, hc => by
    have hu : ∀ s t : ReportTree, t.Distinct → (s.merge t).merge u = s.merge (t.merge u) :=
      fun s t ht => merge_assoc s t ht hc.1
    have hd' : AllDistinct (alterEntry k u.onto bs) :=
      allDistinct_alterEntry hc.1 (fun t ht => merge_distinct ht hc.1) hd
    rw [mergeBranches_cons, mergeBranches_cons, ← mergeBranches_onto hu hn hd]
    exact mergeBranches_assoc as _ (nodup_alterEntry hn) hd' hc.2

end

/-- Merging trees of distinct keys is associative, the empty tree is neutral on both sides, and keys
stay distinct. -/
theorem merge_monoid {a b c : ReportTree} (ha : a.Distinct) (hb : b.Distinct) (hc : c.Distinct) :
    (a.merge b).merge c = a.merge (b.merge c) ∧ (node [] []).merge a = a ∧
      a.merge (node [] []) = a ∧ (a.merge b).Distinct := by
  have hleft := congrArg Report.tree (Report.empty_merge ⟨a, ha⟩)
  have hright := congrArg Report.tree (Report.merge_empty ⟨a, ha⟩)
  exact ⟨merge_assoc a b hb hc, hleft, hright, merge_distinct ha hb⟩

/-- Three trees that share `x` with its branch `y`, one key two by two, and a branch without a
message. -/
theorem merge_overlapping :
    let a := node ["a"] [("x", node ["ax"] []), ("p", node [] []), ("q", node ["aq"] [])]
    let b := node [] [("r", node ["br"] []), ("x", node [] [("y", node ["bxy"] [])]),
      ("p", node ["bp"] [])]
    let c := node ["c"] [("q", node ["cq"] []), ("x", node ["cx"] [("y", node ["cxy"] [])]),
      ("r", node ["cr"] [])]
    let all := node ["a", "c"]
      [("x", node ["ax", "cx"] [("y", node ["bxy", "cxy"] [])]), ("p", node ["bp"] []),
        ("q", node ["aq", "cq"] []), ("r", node ["br", "cr"] [])]
    a.Distinct ∧ b.Distinct ∧ c.Distinct ∧ (a.merge b).merge c = all ∧ a.merge (b.merge c) = all ∧
      (a.merge b).Distinct := by
  intro a b c all
  have ha : a.Distinct := by simp [a, Distinct, AllDistinct]
  have hb : b.Distinct := by simp [b, Distinct, AllDistinct]
  have hc : c.Distinct := by simp [c, Distinct, AllDistinct]
  obtain ⟨hassoc, -, -, hdistinct⟩ := merge_monoid ha hb hc
  have hall : (a.merge b).merge c = all := by
    simp [a, b, c, all, merge, mergeBranches, alterEntry]
  exact ⟨ha, hb, hc, hall, hassoc ▸ hall, hdistinct⟩

end ReportTree

namespace Report

theorem merge_assoc (r s t : Report) : (r.merge s).merge t = r.merge (s.merge t) :=
  ext (ReportTree.merge_assoc r.tree s.tree s.distinct t.distinct)

end Report

end Vetting
